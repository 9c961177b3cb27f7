import Hack.Proofs.AsmPasses
import Hack.Proofs.CommandGrammar
import Hack.Proofs.HaltDetection
import Hack.Proofs.LabelUniqueness
/-! Every fixed-width quantity of the tools stays in its range, but the generator's temp register
above index 65530. -/

set_option autoImplicit false

namespace Hack.Asm

/-! ### Addresses inside the ROM -/

/-- A stored line's word index and the word its label is bound to lie inside the ROM. -/
def Line.Addressed (line : Line) : Prop :=
  (∀ p, line.pc = some p → p.toNat < romSize) ∧
    ∀ name a, line.stmt = some (.label name a) → a.toNat < romSize

/-- Every address of a symbol table lies inside the ROM. -/
def SymbolTable.Addressed (table : SymbolTable) : Prop :=
  ∀ entry ∈ table.entries, entry.2.toNat < romSize

namespace SymbolTable

theorem entries_of_add {table next : SymbolTable} {name : String} {addr : UInt16}
    (added : table.add name addr = .ok next) : next.entries = table.entries.push (name, addr) := by
  unfold add at added
  split at added
  · cases added
  · split at added
    · cases added
    · cases added
      rfl

theorem Addressed.add {table next : SymbolTable} {name : String} {addr : UInt16}
    (inside : table.Addressed) (small : addr.toNat < romSize)
    (added : table.add name addr = .ok next) : next.Addressed := by
  intro entry member
  rw [entries_of_add added, Array.mem_push] at member
  rcases member with old | rfl
  · exact inside entry old
  · exact small

theorem initial_addressed : initial.Addressed := by
  have bounded : ∀ p ∈ predefined, p.2.toNat < romSize := by decide
  intro entry member
  exact bounded entry (by simpa [initial] using member)

theorem Addressed.lt_of_get? {table : SymbolTable} (inside : table.Addressed) {name : String}
    {a : UInt16} (found : table.get? name = some a) : a.toNat < romSize := by
  simp only [SymbolTable.get?, Option.map_eq_some_iff] at found
  obtain ⟨entry, located, rfl⟩ := found
  exact inside entry (Array.mem_of_find?_eq_some located)

end SymbolTable

/-! ### The invariant of an assembler -/

/-- The counters of an assembler where sixteen bits hold them, and every address it has handed
out inside the ROM. -/
structure Session.InRange (s : Session) : Prop where
  pc_le : s.pc ≤ romSize
  nextVar_le : s.nextVar ≤ variableLimit
  lines : ∀ line ∈ s.lines, line.Addressed
  symbols : s.symbols.Addressed

/-- The states an assembler reaches from a new one through its operations, in any order and any
number of times: feeding a file, whether or not a line of it is refused, and running a pass. -/
inductive Session.Reachable : Session → Prop
  | fresh : Reachable ({} : Session)
  | feed {s : Session} (file source : String) : Reachable s → Reachable (s.feed file source).1
  | resolveLabels {s : Session} : Reachable s → Reachable s.resolveLabels.1
  | allocateVariables {s : Session} : Reachable s → Reachable s.allocateVariables.1
  | assemble {s : Session} : Reachable s → Reachable s.assemble.1

namespace Session

theorem inRange_fresh : ({} : Session).InRange where
  pc_le := by decide
  nextVar_le := by decide
  lines := by simp
  symbols := SymbolTable.initial_addressed

/-- What reading a line does: it keeps one line and leaves the table and the next variable. The
counter stays, or goes up by one from below the ROM size for an instruction, which takes the
word at the counter; a label is bound to the counter, below the ROM size. -/
theorem feedLine_ok {s s' : Session} {file : String} {index : Nat} {raw : String}
    (fed : s.feedLine file index raw = .ok s') :
    ∃ line : Line, s'.lines = s.lines.push line ∧ s'.symbols = s.symbols ∧
      s'.nextVar = s.nextVar ∧
      (line.pc = none ∧ s'.pc = s.pc ∨
        s.pc < romSize ∧ line.pc = some s.pc.toUInt16 ∧ s'.pc = s.pc + 1) ∧
      ∀ name a, line.stmt = some (.label name a) → s.pc < romSize ∧ a = s.pc.toUInt16 := by
  unfold feedLine at fed
  cases parsed : Stmt.parse raw s.pc.toUInt16 with
  | error e => simp [parsed] at fed
  | ok stmt =>
    cases stmt with
    | none =>
      simp only [parsed, Except.ok.injEq] at fed
      subst fed
      exact ⟨_, rfl, rfl, rfl, .inl ⟨rfl, rfl⟩, by simp⟩
    | some st =>
      simp only [parsed] at fed
      have bound := (Stmt.parse_eq_some parsed).2
      split at fed
      · cases fed
      · rename_i room
        have labelled : ∀ name a, some st = some (Stmt.label name a) →
            s.pc < romSize ∧ a = s.pc.toUInt16 := by
          intro name a same
          simp only [Option.some.injEq] at same
          subst same
          exact ⟨by omega, bound.2⟩
        split at fed
        · simp only [Except.ok.injEq] at fed
          subst fed
          exact ⟨_, rfl, rfl, rfl, .inr ⟨by omega, rfl, rfl⟩, labelled⟩
        · simp only [Except.ok.injEq] at fed
          subst fed
          exact ⟨_, rfl, rfl, rfl, .inl ⟨rfl, rfl⟩, labelled⟩

/-- A number up to the ROM size is held whole by sixteen bits. -/
theorem toNat_toUInt16_of_le {n : Nat} (fits : n ≤ romSize) : n.toUInt16.toNat = n := by
  simp only [romSize] at fits
  simp [Nat.mod_eq_of_lt (by omega : n < 65536)]

theorem InRange.feedLine {s s' : Session} {file : String} {index : Nat} {raw : String}
    (inv : s.InRange) (fed : s.feedLine file index raw = .ok s') : s'.InRange := by
  obtain ⟨line, lines, symbols, nextVar, counter, label⟩ := feedLine_ok fed
  refine ⟨?_, nextVar ▸ inv.nextVar_le, ?_, symbols ▸ inv.symbols⟩
  · have := inv.pc_le
    rcases counter with ⟨-, same⟩ | ⟨room, -, next⟩ <;> omega
  · intro l member
    rw [lines, Array.mem_push] at member
    rcases member with old | rfl
    · exact inv.lines l old
    · refine ⟨?_, ?_⟩
      · intro p kept
        rcases counter with ⟨none, -⟩ | ⟨room, word, -⟩
        · simp [none] at kept
        · rw [word, Option.some.injEq] at kept
          rw [← kept, toNat_toUInt16_of_le (Nat.le_of_lt room)]
          exact room
      · intro name a labelled
        obtain ⟨room, rfl⟩ := label name a labelled
        rw [toNat_toUInt16_of_le (Nat.le_of_lt room)]
        exact room

/-- Feeding lines keeps the invariant, also when a line is refused. -/
theorem InRange.feedFrom {s : Session} (file : String) (lines : List (Nat × String))
    (inv : s.InRange) : (Session.feedFrom file s lines).1.InRange := by
  induction lines generalizing s with
  | nil => exact inv
  | cons line rest ih =>
    obtain ⟨index, raw⟩ := line
    simp only [Session.feedFrom]
    cases fed : s.feedLine file index raw with
    | ok next => exact ih (inv.feedLine fed)
    | error e => exact inv

theorem InRange.feed {s : Session} (file source : String) (inv : s.InRange) :
    (s.feed file source).1.InRange :=
  inv.feedFrom file _

/-- A walk keeps what each of its steps keeps, over lines that each have a property `Q`. -/
theorem walk_invariant {σ : Type} (P : σ → Prop) (Q : Line → Prop)
    (step : σ → Line → Except LineError σ)
    (keeps : ∀ st line st', P st → Q line → step st line = .ok st' → P st')
    (lines : List Line) (st : σ) (holds : P st) (each : ∀ line ∈ lines, Q line) :
    P (walk step st lines).1 := by
  induction lines generalizing st with
  | nil => exact holds
  | cons line rest ih =>
    simp only [walk]
    cases stepped : step st line with
    | ok next =>
      exact ih next (keeps st line next holds (each line (by simp)) stepped)
        (fun l member => each l (by simp [member]))
    | error e => exact holds

/-- Binding a label keeps the table's addresses inside the ROM. -/
theorem bindLabel_addressed {table table' : SymbolTable} {line : Line}
    (inside : table.Addressed) (addressed : line.Addressed)
    (bound : bindLabel table line = .ok table') : table'.Addressed := by
  unfold bindLabel at bound
  split at bound
  · rename_i name pc labelled
    split at bound
    · rename_i next added
      cases bound
      exact inside.add (addressed.2 name pc labelled) added
    · cases bound
  · cases bound
    exact inside

/-- What allocating for a line does: it keeps the table and the next variable, or, below the
screen map only, gives a name the next variable and moves past it. -/
theorem allocateLine_ok {table table' : SymbolTable} {next next' : Nat} {line : Line}
    (allocated : allocateLine (table, next) line = .ok (table', next')) :
    table' = table ∧ next' = next ∨
      ∃ name, next < variableLimit ∧ table.add name next.toUInt16 = .ok table' ∧
        next' = next + 1 := by
  simp only [allocateLine] at allocated
  split at allocated
  · split at allocated
    · simp only [Except.ok.injEq, Prod.mk.injEq] at allocated
      obtain ⟨rfl, rfl⟩ := allocated
      exact .inl ⟨rfl, rfl⟩
    · split at allocated
      · cases allocated
      · rename_i name _ _ below
        split at allocated
        · rename_i added
          simp only [Except.ok.injEq, Prod.mk.injEq] at allocated
          obtain ⟨rfl, rfl⟩ := allocated
          exact .inr ⟨name, by omega, added, rfl⟩
        · cases allocated
  · simp only [Except.ok.injEq, Prod.mk.injEq] at allocated
    obtain ⟨rfl, rfl⟩ := allocated
    exact .inl ⟨rfl, rfl⟩

theorem variableLimit_le_romSize : variableLimit ≤ romSize := by decide

/-- Allocating for a line keeps the next variable at most the screen map, and gives a variable an
address inside the ROM. -/
theorem allocateLine_inRange {table table' : SymbolTable} {next next' : Nat} {line : Line}
    (inside : table.Addressed) (room : next ≤ variableLimit)
    (allocated : allocateLine (table, next) line = .ok (table', next')) :
    table'.Addressed ∧ next' ≤ variableLimit := by
  rcases allocateLine_ok allocated with ⟨rfl, rfl⟩ | ⟨name, below, added, rfl⟩
  · exact ⟨inside, room⟩
  · have small : next < romSize := Nat.lt_of_lt_of_le below variableLimit_le_romSize
    refine ⟨inside.add ?_ added, below⟩
    rw [toNat_toUInt16_of_le (Nat.le_of_lt small)]
    exact small

theorem InRange.resolveLabels {s : Session} (inv : s.InRange) : s.resolveLabels.1.InRange :=
  { inv with
    symbols := walk_invariant SymbolTable.Addressed Line.Addressed bindLabel
      (fun _ _ _ inside addressed bound => bindLabel_addressed inside addressed bound)
      s.lines.toList s.symbols inv.symbols (by simpa using inv.lines) }

theorem InRange.allocateVariables {s : Session} (inv : s.InRange) :
    s.allocateVariables.1.InRange := by
  have kept := walk_invariant (fun st => st.1.Addressed ∧ st.2 ≤ variableLimit) Line.Addressed
    allocateLine (fun _ _ _ holds _ allocated => allocateLine_inRange holds.1 holds.2 allocated)
    s.lines.toList (s.symbols, s.nextVar) ⟨inv.symbols, inv.nextVar_le⟩
    (by simpa using inv.lines)
  exact { inv with symbols := kept.1, nextVar_le := kept.2 }

theorem InRange.assemble {s : Session} (inv : s.InRange) : s.assemble.1.InRange := by
  have labelled := inv.resolveLabels
  unfold Session.assemble
  cases resolved : s.resolveLabels with
  | mk r failed =>
    rw [resolved] at labelled
    cases failed with
    | some e => exact labelled
    | none =>
      have allocated := labelled.allocateVariables
      cases allocatedEq : r.allocateVariables with
      | mk a stopped =>
        rw [allocatedEq] at allocated
        simp only [allocatedEq]
        cases stopped <;> exact allocated

/-- Every state an assembler reaches keeps the invariant. -/
theorem Reachable.inRange {s : Session} (reached : s.Reachable) : s.InRange := by
  induction reached with
  | fresh => exact inRange_fresh
  | feed file source _ ih => exact ih.feed file source
  | resolveLabels _ ih => exact ih.resolveLabels
  | allocateVariables _ ih => exact ih.allocateVariables
  | assemble _ ih => exact ih.assemble

end Session

end Hack.Asm

namespace Hack

namespace Machine

/-! ### The machine reads and writes inside its memories -/

/-- RAM addresses wrap modulo its size: a write changes the one word at its address modulo 32768
and no other. -/
theorem get_set (m : Machine) (x v y : UInt16) :
    (m.set x v).get y = if x.toNat % ramSize = y.toNat % ramSize then v else m.get y := by
  split
  · rename_i same
    have slots : slot y = slot x := Fin.ext same.symm
    rw [show (m.set x v).get y = (m.set x v).get x by simp only [get, slots]]
    exact get_set_self m x v
  · exact get_set_of_ne m x y v ‹_›

/-- Past the end of the program a step reads no ROM word and changes nothing. -/
theorem exec_of_past {m : Machine} (past : m.rom.size ≤ m.pc.toNat) : m.exec = (m, m.pc, 0) := by
  simp [exec, Array.getElem?_eq_none past]

/-- A step reports the program counter and the ROM word there, or 0 past the program. -/
theorem exec_fetch (m : Machine) : m.exec.2 = (m.pc, m.rom[m.pc.toNat]?.getD 0) := by
  simp only [exec]
  split
  · rename_i fetched
    simp [fetched]
  · rename_i word fetched
    split <;> simp [fetched]

theorem rom_exec (m : Machine) : m.exec.1.rom = m.rom :=
  rom_steps 1 m

/-- A step writes at most the RAM word at A: an address apart from A modulo the RAM size reads
the same after it. -/
theorem get_exec_of_apart (m : Machine) (y : UInt16)
    (apart : m.a.toNat % ramSize ≠ y.toNat % ramSize) : m.exec.1.get y = m.get y := by
  simp only [exec]
  split
  · rfl
  · split
    · rfl
    -- only a compute instruction that writes M touches the RAM, and there at the old A
    · simp only [get, ram_compute]
      split
      · exact get_set_of_ne m m.a y _ apart
      · rfl
    · rfl

/-- A run of any length keeps the program. -/
theorem rom_runFrom (fuel : Nat) (m : Machine) (count : Nat) :
    (runFrom fuel m count).1.rom = m.rom := by
  induction fuel generalizing m count with
  | zero => rfl
  | succ fuel ih =>
    simp only [runFrom]
    split
    · rfl
    · rw [ih, rom_exec]

theorem rom_run (m : Machine) (tmax : Nat) : (m.run tmax).1.rom = m.rom :=
  rom_runFrom tmax m 0

end Machine

/-- Shifted into place, the computation and destination codes keep all their bits. -/
theorem Inst.shifted_fields (dest : Dest) (comp : Comp) :
    (comp.code <<< 6).toNat = comp.code.toNat * 64 ∧
      (dest.code <<< 3).toNat = dest.code.toNat * 8 := by
  have hc := comp.code_lt
  have hd := dest.code_lt
  simp only [UInt16.lt_iff_toNat_lt, UInt16.reduceToNat] at hc hd
  simp only [UInt16.toNat_shiftLeft, UInt16.reduceToNat, Nat.reduceMod, Nat.shiftLeft_eq,
    Nat.reducePow]
  constructor
  · exact Nat.mod_eq_of_lt (by omega)
  · exact Nat.mod_eq_of_lt (by omega)

end Hack

namespace Hack.Vm

/-! ### Temp registers -/

/-- A memory command of the grammar has the slot of an index its segment admits. -/
theorem CommandGrammar.memory_slot {s : Scope} {words : List String} {access : Access}
    {slot : Slot} (reads : CommandGrammar s words (.ok (some (.memory access slot)))) :
    ∃ (segment : Segment) (n : UInt16),
      slot = segment.slotIn s.file n ∧ segment.Admits n.toNat := by
  cases reads with
  | memory _ segment _ _ admitted => exact ⟨segment, _, rfl, admitted⟩

/-- The reader gives temp indices below 8 only. -/
theorem Scope.read_temp_lt {s : Scope} {line : String} {access : Access} {i : UInt16}
    (reads : s.read line = .ok (some (.memory access (.temp i)))) : i.toNat < 8 := by
  obtain ⟨result, grammar⟩ := commandGrammar_total s (Text.words (Text.stripComment line))
  rw [Scope.read_of_commandGrammar grammar] at reads
  subst reads
  obtain ⟨segment, n, named, admitted⟩ := grammar.memory_slot
  cases segment <;> simp only [Segment.slotIn, reduceCtorEq, Slot.temp.injEq] at named
  subst named
  exact admitted

/-- The generator's sum 5 + i for temp `i` overflows sixteen bits exactly above index 65530. -/
theorem Code.checkedAdd_temp_eq_none_iff (i : UInt16) :
    Code.checkedAdd 5 i = none ↔ 65530 < i.toNat := by
  rw [Code.checkedAdd_eq_none_iff]
  simp only [UInt16.reduceToNat]
  omega

/-- The temp register of an index is `R` followed by the sixteen-bit sum of 5 and the index
exactly up to index 65530, where that sum does not overflow. -/
theorem Code.tempRegister_eq_iff (i : UInt16) :
    Code.tempRegister i = "R" ++ toString ((5 : UInt16) + i).toNat ↔ i.toNat ≤ 65530 := by
  constructor
  · intro named
    -- past 65530 the generator panics and the name is empty
    refine Nat.le_of_not_lt fun big => ?_
    have panics : Code.checkedAdd 5 i = none := (Code.checkedAdd_temp_eq_none_iff i).mpr big
    rw [Code.tempRegister, panics] at named
    simp [String.ext_iff] at named
  · intro small
    have sum : ((5 : UInt16) + i).toNat = 5 + i.toNat := by
      simp only [UInt16.toNat_add, UInt16.reduceToNat]
      omega
    rw [Code.tempRegister_of_le small, sum]

end Hack.Vm

namespace Hack

/-- No fixed-width quantity of the tools leaves its range but one. In every state an assembler
reaches, its word counter is at most the ROM size and its next variable at most the screen map,
so sixteen bits hold both exactly, and every word index, label address and symbol address it
keeps lies inside the ROM, so a load of a symbol keeps its whole address. A machine step past the
program changes nothing, and otherwise reads the ROM word at the program counter; it keeps the
ROM, as a run of any length does, and of the RAM writes at most the word at A modulo 32768, the
one word a write changes. A compute word keeps every bit of its shifted fields. The one sum that
leaves sixteen bits is the generator's temp register 5 + i, which overflows exactly above index
65530, where the generator panics and the register is no name of a sum; the reader gives temp
indices below 8 only. -/
theorem fixed_width_safety :
    (∀ s : Asm.Session, s.Reachable →
      s.InRange ∧ s.pc.toUInt16.toNat = s.pc ∧ s.nextVar.toUInt16.toNat = s.nextVar ∧
        ∀ name a, s.symbols.get? name = some a → (Inst.load a).toWord = a) ∧
    (∀ m : Machine, (m.rom.size ≤ m.pc.toNat → m.exec = (m, m.pc, 0)) ∧
      m.exec.2 = (m.pc, m.rom[m.pc.toNat]?.getD 0) ∧ m.exec.1.rom = m.rom ∧
      ∀ y, m.a.toNat % ramSize ≠ y.toNat % ramSize → m.exec.1.get y = m.get y) ∧
    (∀ (m : Machine) (tmax : Nat), (m.run tmax).1.rom = m.rom) ∧
    (∀ (m : Machine) (x v y : UInt16),
      (m.set x v).get y = if x.toNat % ramSize = y.toNat % ramSize then v else m.get y) ∧
    (∀ (dest : Dest) (comp : Comp) (jump : Jump),
      (comp.code <<< 6).toNat = comp.code.toNat * 64 ∧
      (dest.code <<< 3).toNat = dest.code.toNat * 8 ∧
      (Inst.compute dest comp jump).toWord.toNat =
        57344 + comp.code.toNat * 64 + dest.code.toNat * 8 + jump.code.toNat) ∧
    (∀ i : UInt16, Vm.Code.checkedAdd 5 i = none ↔ 65530 < i.toNat) ∧
    (∀ i : UInt16,
      Vm.Code.tempRegister i = "R" ++ toString ((5 : UInt16) + i).toNat ↔ i.toNat ≤ 65530) ∧
    (∀ (s : Vm.Scope) (line : String) (access : Vm.Access) (i : UInt16),
      s.read line = .ok (some (.memory access (.temp i))) → i.toNat < 8) := by
  refine ⟨?_, ?_, Machine.rom_run, Machine.get_set, ?_, Vm.Code.checkedAdd_temp_eq_none_iff,
    Vm.Code.tempRegister_eq_iff, fun _ _ _ _ reads => Vm.Scope.read_temp_lt reads⟩
  · intro s reached
    have inv := reached.inRange
    have pcExact := Asm.Session.toNat_toUInt16_of_le inv.pc_le
    have varExact : s.nextVar.toUInt16.toNat = s.nextVar :=
      Asm.Session.toNat_toUInt16_of_le
        (Nat.le_trans inv.nextVar_le Asm.Session.variableLimit_le_romSize)
    refine ⟨inv, pcExact, varExact, fun name a found => ?_⟩
    exact Inst.toWord_load a (inv.symbols.lt_of_get? found)
  · intro m
    exact ⟨Machine.exec_of_past, Machine.exec_fetch m, Machine.rom_exec m,
      Machine.get_exec_of_apart m⟩
  · intro dest comp jump
    obtain ⟨compField, destField⟩ := Inst.shifted_fields dest comp
    exact ⟨compField, destField, Inst.toNat_toWord_compute dest comp jump⟩

/-- A new assembler fed a small program, a machine with no program and an address apart from
its A, and the line `pop temp 7`. -/
theorem fixed_width_safety_sample :
    (({} : Asm.Session).feed "Main.asm" "@i\n(END)\n@END\n0;JMP\n").1.Reachable ∧
      (({} : Asm.Session).feed "Main.asm" "@i\n(END)\n@END\n0;JMP\n").1.InRange ∧
      (({} : Machine).rom.size ≤ ({} : Machine).pc.toNat ∧
        ({} : Machine).exec = (({} : Machine), 0, 0)) ∧
      (({} : Machine).a.toNat % ramSize ≠ (1 : UInt16).toNat % ramSize ∧
        ({} : Machine).exec.1.get 1 = ({} : Machine).get 1) ∧
      ((Vm.Scope.init "Main").read "pop temp 7" = .ok (some (.memory .pop (.temp 7))) ∧
        (7 : UInt16).toNat < 8) := by
  obtain ⟨assembler, machine, -, -, -, -, -, reader⟩ := fixed_width_safety
  have reached : (({} : Asm.Session).feed "Main.asm" "@i\n(END)\n@END\n0;JMP\n").1.Reachable :=
    .feed _ _ .fresh
  have empty : ({} : Machine).rom.size ≤ ({} : Machine).pc.toNat := Nat.le_refl 0
  have apart : ({} : Machine).a.toNat % ramSize ≠ (1 : UInt16).toNat % ramSize := by decide
  have popTemp : (Vm.Scope.init "Main").read "pop temp 7" = .ok (some (.memory .pop (.temp 7))) :=
    rfl
  exact ⟨reached, (assembler _ reached).1, ⟨empty, (machine {}).1 empty⟩,
    ⟨apart, (machine {}).2.2.2 1 apart⟩, ⟨popTemp, reader _ _ _ _ popTemp⟩⟩

end Hack
