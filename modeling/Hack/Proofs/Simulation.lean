import Mathlib.Logic.Relation
import Hack.Proofs.Layout
import Hack.Proofs.Bounds
import Hack.Machine.Rom
/-! The machine running a translated and assembled program simulates the VM: every run of VM steps
that keep to the memory map is matched by machine steps that keep the VM's RAM in the machine's. -/

set_option autoImplicit false

namespace Hack.Machine

/-- Two addresses of one RAM slot read the same word. -/
theorem get_of_slot (m : Machine) {x y : UInt16} (same : x.toNat % 32768 = y.toNat % 32768) :
    m.get x = m.get y := by
  have slots : slot x = slot y := Fin.ext same
  simp only [get, slots]

/-- The RAM the code of a call leaves, from `SP = sp`: the return word `ret` and the words of
`LCL`, `ARG`, `THIS` and `THAT` pushed from `sp` on, then `LCL` just above them and `ARG` at the
first of the `n` arguments. -/
def called (m : Machine) (sp ret : UInt16) (n : Nat) : Machine :=
  let framed := ((((m.pushed sp ret).pushed (sp + 1) (m.get 1)).pushed (sp + 2) (m.get 2)).pushed
    (sp + 3) (m.get 3)).pushed (sp + 4) (m.get 4)
  (framed.set 1 (sp + 5)).set 2 (sp + 5 - (n + 5).toUInt16)

end Hack.Machine

namespace Hack.Vm

open Asm Machine

/-- A call, run from its first word with `SP = sp` above the registers and room for its frame,
comes to the function's word with the RAM `called` says. -/
theorem arrives_call {addr : String → UInt16} (res : Resolution addr) (m : Machine)
    (f ret : String) (n : Nat) (sp : UInt16)
    (placed : CodeAt m.rom m.pc (instructions addr (Code.call f n ret)))
    (top : m.get 0 = sp) (low : 16 + n ≤ sp.toNat) (high : sp.toNat + 5 ≤ 32767) :
    Arrives (instructions addr (Code.call f n ret)).length m
      { m.called sp (addr ret) n with pc := addr f } := by
  rw [instructions_call addr] at placed ⊢
  rw [Arrives, List.length_append, List.length_singleton, steps_straight_then _ _ m placed (by
    simp [instructions, Code.pushD, Code.addr, Code.assign, Code.literal, Instr.resolve,
      Inst.FallsThrough])]
  rw [List.foldl_append, run_pushFrame res m ret sp top (by omega) high,
    run_enter res _ f n (by omega)]
  -- the five pushes leave `SP` five words up
  have framed : ((((((m.pushed sp (addr ret)).pushed (sp + 1) (m.get 1)).pushed (sp + 2)
      (m.get 2)).pushed (sp + 3) (m.get 3)).pushed (sp + 4) (m.get 4)).withRegs (sp + 4) (m.get 4)
      (m.pc + 30)).get 0 = sp + 5 := by
    rw [get_withRegs, get_pushed_sp _ _ _ (by simp only [UInt16.toNat_add, UInt16.reduceToNat]; omega)]
    simp only [UInt16.add_assoc, UInt16.reduceAdd]
  refine ⟨?_, ?_⟩
  · rw [pc_runInst_goto, a_withRegs]
  · rw [ram_runInst_branch, framed]
    simp only [ram_withRegs, set_withRegs, called]

/-! ### The machine's memory holds the VM's -/

/-- The machine's memory holds the VM's: each word the VM addresses is the same on both, and the
value of each static of `cmds` is in its cell, the word `addr` gives its name. -/
structure Mirrors (cmds : List Command) (addr : String → UInt16) (s : State) (m : Machine) :
    Prop where
  ram : ∀ x, Ordinary x → m.get x = s.get x
  statics : ∀ name ∈ staticNames cmds, m.get (addr name) = s.statics name

/-- The machine `m` realises the VM state `s` of the program `cmds`, assembled into the words `rom`
with the symbol table `addr` and with the code of position `p` from the word `code p` on: it runs
those words, it is at the code of the VM's position, and its memory holds the VM's. -/
structure Realizes (cmds : List Command) (rom : Array UInt16) (addr : String → UInt16)
    (code : Nat → UInt16) (s : State) (m : Machine) : Prop where
  rom : m.rom = rom
  pc : m.pc = code s.pos
  mirrors : Mirrors cmds addr s m

theorem ordinary_iff {x : UInt16} :
    Ordinary x ↔ x.toNat % 32768 < 13 ∨ 256 ≤ x.toNat % 32768 := Iff.rfl

/-- The words of the stack, from 256 up to the last RAM word, are words the VM addresses. -/
theorem ordinary_stack {x : UInt16} (low : 256 ≤ x.toNat) (high : x.toNat < 32768) : Ordinary x := by
  rw [ordinary_iff]
  omega

/-- The five registers and the temp segment are words the VM addresses. -/
theorem ordinary_register {x : UInt16} (small : x.toNat < 13) : Ordinary x := by
  rw [ordinary_iff]
  omega

/-- The word `k` below a top of the stack at least `k` words above 256 is on the stack. -/
theorem ordinary_below {sp k : UInt16} (low : 256 + k.toNat ≤ sp.toNat) (high : sp.toNat < 32768) :
    Ordinary (sp - k) := by
  apply ordinary_stack <;> rw [UInt16.toNat_sub_of_le _ _ (UInt16.le_iff_toNat_le.mpr (by omega))] <;>
    omega

/-- A unary command reads the top word only. -/
theorem ArithOp.compute_of_unary {op : ArithOp} (unary : op.isUnary = true) (x x' y : UInt16) :
    op.compute x y = op.apply x' y := by
  cases op <;> first | rfl | cases unary

section Mirrors

variable {cmds : List Command} {rom : Array UInt16} {addr : String → UInt16}
  {code : Nat → UInt16} (layout : Layout cmds rom addr code) {s : State} {m : Machine}

include layout in
/-- A static's cell is none of the words the VM addresses. -/
theorem cell_apart {name : String} (static : name ∈ staticNames cmds) {x : UInt16}
    (ordinary : Ordinary x) : (addr name).toNat % 32768 ≠ x.toNat % 32768 := by
  have cell := layout.cells name static
  rw [ordinary_iff] at ordinary
  omega

/-- The VM's position plays no part in its memory. -/
theorem Mirrors.pos (mirror : Mirrors cmds addr s m) (p : Nat) :
    Mirrors cmds addr { s with pos := p } m :=
  ⟨mirror.ram, mirror.statics⟩

/-- A machine with the same RAM holds the same. -/
theorem Mirrors.of_ram {m' : Machine} (mirror : Mirrors cmds addr s m') (same : m.ram = m'.ram) :
    Mirrors cmds addr s m := by
  have reads : ∀ x, m.get x = m'.get x := fun x => by simp only [Machine.get, same]
  exact ⟨fun x ordinary => (reads x).trans (mirror.ram x ordinary),
    fun name static => (reads _).trans (mirror.statics name static)⟩

include layout in
/-- A write to a word the VM addresses, made on both. -/
theorem Mirrors.set (mirror : Mirrors cmds addr s m) {x : UInt16} (ordinary : Ordinary x)
    (v : UInt16) : Mirrors cmds addr (s.set x v) (m.set x v) := by
  constructor
  · intro y _
    rw [Machine.get_set, State.get_set, ramSize]
    split
    · rfl
    · exact mirror.ram y ‹_›
  · intro name static
    rw [Machine.get_set_of_ne _ _ _ _ (cell_apart layout static ordinary).symm]
    exact mirror.statics name static

include layout in
/-- A write the machine makes to one of its scratch words `R13` to `R15`. -/
theorem Mirrors.set_scratch (mirror : Mirrors cmds addr s m) {x : UInt16}
    (scratch : 13 ≤ x.toNat % 32768 ∧ x.toNat % 32768 < 16) (v : UInt16) :
    Mirrors cmds addr s (m.set x v) := by
  constructor
  · intro y ordinary
    rw [ordinary_iff] at ordinary
    rw [Machine.get_set_of_ne _ _ _ _ (by omega)]
    exact mirror.ram y (ordinary_iff.mpr ordinary)
  · intro name static
    have cell := layout.cells name static
    rw [Machine.get_set_of_ne _ _ _ _ (by omega)]
    exact mirror.statics name static

include layout in
/-- A write to a static: to its cell on the machine, to the static itself on the VM. -/
theorem Mirrors.set_cell (mirror : Mirrors cmds addr s m) {name : String}
    (static : name ∈ staticNames cmds) (v : UInt16) :
    Mirrors cmds addr { s with statics := Function.update s.statics name v }
      (m.set (addr name) v) := by
  constructor
  · intro y ordinary
    rw [Machine.get_set_of_ne _ _ _ _ (cell_apart layout static ordinary)]
    exact mirror.ram y ordinary
  · intro other static'
    by_cases same : other = name
    · subst same
      simp only [Machine.get_set_self, Function.update_self]
    · -- two statics have two cells, both below the RAM size
      have cell := layout.cells name static
      have cell' := layout.cells other static'
      have differ : addr name ≠ addr other := fun equal =>
        same (layout.apart name static other static' equal).symm
      rw [Machine.get_set_of_ne _ _ _ _ ?_]
      · simp only [Function.update_of_ne same]
        exact mirror.statics other static'
      · intro slots
        exact differ (UInt16.toNat_inj.mp (by omega))

include layout in
/-- A push on both, onto a stack whose top word is one the VM addresses. -/
theorem Mirrors.push (mirror : Mirrors cmds addr s m) {sp : UInt16} (top : s.get 0 = sp)
    (ordinary : Ordinary sp) (v : UInt16) : Mirrors cmds addr (s.push v) (m.pushed sp v) := by
  rw [State.push, top, Machine.pushed]
  exact (mirror.set layout (ordinary_register (by decide)) _).set layout ordinary v

include layout in
/-- A push on both from `SP = sp` on the stack, after which `SP` is one word up. -/
theorem Mirrors.push_up (mirror : Mirrors cmds addr s m) {sp : UInt16} (top : s.get 0 = sp)
    (low : 256 ≤ sp.toNat) (high : sp.toNat < 32768) (v : UInt16) :
    Mirrors cmds addr (s.push v) (m.pushed sp v) ∧ (s.push v).get 0 = sp + 1 ∧
      (sp + 1).toNat = sp.toNat + 1 := by
  refine ⟨mirror.push layout top (ordinary_stack low high) v, ?_, ?_⟩
  · rw [State.get_push_sp _ _ (by rw [top]; omega) (by rw [top]; omega), top]
  · simp only [UInt16.toNat_add, UInt16.reduceToNat]
    omega

include layout in
/-- The zeros of a function's locals, pushed on both. -/
theorem Mirrors.pushZeros (mirror : Mirrors cmds addr s m) {sp : UInt16} (top : s.get 0 = sp)
    (k : Nat) (low : 256 ≤ sp.toNat) (high : sp.toNat + k ≤ 32768) :
    Mirrors cmds addr (s.pushZeros k) (m.pushZeros sp k) := by
  induction k generalizing s m sp with
  | zero => exact mirror
  | succ k ih =>
    -- each zero goes one word above the last
    obtain ⟨pushed, next, up⟩ := mirror.push_up layout top low (by omega) 0
    exact ih pushed next (by omega) (by omega)

include layout in
/-- A call's frame, pushed and entered on both. -/
theorem Mirrors.call (mirror : Mirrors cmds addr s m) {sp : UInt16} (top : s.get 0 = sp)
    (low : 256 ≤ sp.toNat) (high : sp.toNat + 5 ≤ 32767) (n : Nat) (ret : UInt16) :
    Mirrors cmds addr (s.call n ret) (m.called sp ret n) := by
  have registers : ∀ r : UInt16, r.toNat < 13 → m.get r = s.get r :=
    fun r small => mirror.ram r (ordinary_register small)
  obtain ⟨h₁, t₁, u₁⟩ := mirror.push_up layout top low (by omega) ret
  obtain ⟨h₂, t₂, u₂⟩ := h₁.push_up layout t₁ (by omega) (by omega) (s.get 1)
  obtain ⟨h₃, t₃, u₃⟩ := h₂.push_up layout t₂ (by omega) (by omega) (s.get 2)
  obtain ⟨h₄, t₄, u₄⟩ := h₃.push_up layout t₃ (by omega) (by omega) (s.get 3)
  obtain ⟨h₅, t₅, -⟩ := h₄.push_up layout t₄ (by omega) (by omega) (s.get 4)
  simp only [UInt16.add_assoc, UInt16.reduceAdd] at h₅ t₅
  simp only [State.call, Machine.called, registers 1 (by decide), registers 2 (by decide),
    registers 3 (by decide), registers 4 (by decide), t₅]
  exact (h₅.set layout (ordinary_register (by decide)) _).set layout
    (ordinary_register (by decide)) _

/-- The value a push reads is the same on both: a constant, a static's cell, or a word the VM
addresses. -/
theorem Mirrors.value (mirror : Mirrors cmds addr s m) {slot : Slot}
    (named : ∀ name, slot = .static name → name ∈ staticNames cmds)
    (ordinary : Ordinary (s.wordOf slot)) : slot.value addr m = s.read slot := by
  cases slot with
  | constant v => rfl
  | static name => exact mirror.statics name (named name rfl)
  | temp i => exact mirror.ram _ ordinary
  | pointer i => exact mirror.ram _ ordinary
  | frame base i =>
    have pointer : m.get base.pointer = s.get base.pointer :=
      mirror.ram _ (ordinary_register (by cases base <;> decide))
    show m.get (m.get base.pointer + i) = s.get (s.get base.pointer + i)
    rw [pointer]
    exact mirror.ram _ ordinary

include layout in
/-- A pop on both: `SP` goes down and the slot takes the popped word; on the machine, the address
of a frame slot waits in `R13` meanwhile. -/
theorem Mirrors.pop (mirror : Mirrors cmds addr s m) {slot : Slot} (admitted : slot.Admitted .pop)
    (named : ∀ name, slot = .static name → name ∈ staticNames cmds) {sp : UInt16}
    (top : s.get 0 = sp) (low : 257 ≤ sp.toNat) (high : sp.toNat ≤ 32767)
    (ordinary : Ordinary (s.wordOf slot)) :
    Mirrors cmds addr (s.pop slot) (slot.popInto addr m sp) := by
  have popped : m.get (sp - 1) = s.get (sp - 1) := mirror.ram _ (ordinary_below (by simp; omega) (by omega))
  have lowered := mirror.set layout (ordinary_register (x := 0) (by decide)) (sp - 1)
  cases slot with
  | constant v => exact absurd admitted.1 (by decide)
  | static name =>
    simp only [State.pop, Slot.popInto, Slot.address, State.write, top, popped]
    exact lowered.set_cell layout (named name rfl) _
  | temp i =>
    simp only [State.pop, Slot.popInto, Slot.address, State.write, State.wordOf, top, popped]
    exact lowered.set layout ordinary _
  | pointer i =>
    simp only [State.pop, Slot.popInto, Slot.address, State.write, State.wordOf, top, popped]
    exact lowered.set layout ordinary _
  | frame base i =>
    have pointer : m.get base.pointer = s.get base.pointer :=
      mirror.ram _ (ordinary_register (by cases base <;> decide))
    -- `SP` is no base pointer, so moving it keeps the slot's word
    have kept : (s.set 0 (sp - 1)).get base.pointer = s.get base.pointer := by
      rw [State.get_set, if_neg (by cases base <;> decide)]
    simp only [State.wordOf] at ordinary
    simp only [State.pop, Slot.popInto, Slot.address, State.write, State.wordOf, top, popped,
      pointer, kept]
    exact ((mirror.set_scratch layout (x := 13) (by decide) _).set layout
      (ordinary_register (by decide)) _).set layout ordinary _

include layout in
/-- A return on both: the machine's words after the code of a return, which `Returned` gives one
by one, hold the VM's state after the return. -/
theorem Mirrors.ret (mirror : Mirrors cmds addr s m) {m' : Machine}
    (returned : Returned (s.get 1) (s.get 2) (s.get 0) m m')
    (low : 256 ≤ (s.get 2).toNat) (below : (s.get 2).toNat + 5 ≤ (s.get 1).toNat)
    (above : (s.get 1).toNat < (s.get 0).toNat) (high : (s.get 0).toNat ≤ 32767) :
    Mirrors cmds addr s.ret m' := by
  -- the frame below `LCL` and the result on top lie on the stack
  have frame : ∀ k : UInt16, k.toNat ≤ 5 → m.get (s.get 1 - k) = s.get (s.get 1 - k) :=
    fun k small => mirror.ram _ (ordinary_below (by omega) (by omega))
  have result : m.get (s.get 0 - 1) = s.get (s.get 0 - 1) :=
    mirror.ram _ (ordinary_below (by simp; omega) (by omega))
  constructor
  · intro x ordinary
    rw [ordinary_iff] at ordinary
    simp only [State.ret, State.get_set, UInt16.reduceToNat, Nat.reduceMod]
    split_ifs with lcl arg this that sp placed
    · rw [m'.get_of_slot (y := 1) (by simp only [UInt16.reduceToNat]; omega), returned.restoresLcl, frame 4 (by decide)]
    · rw [m'.get_of_slot (y := 2) (by simp only [UInt16.reduceToNat]; omega), returned.restoresArg, frame 3 (by decide)]
    · rw [m'.get_of_slot (y := 3) (by simp only [UInt16.reduceToNat]; omega), returned.restoresThis, frame 2 (by decide)]
    · rw [m'.get_of_slot (y := 4) (by simp only [UInt16.reduceToNat]; omega), returned.restoresThat, frame 1 (by decide)]
    · rw [m'.get_of_slot (y := 0) (by simp only [UInt16.reduceToNat]; omega), returned.setsSp]
    · rw [m'.get_of_slot placed.symm, returned.placesResult, result]
    · rw [returned.keeps x (by omega) (by omega) (by omega) (by omega)]
      exact mirror.ram x (ordinary_iff.mpr ordinary)
  · intro name static
    have cell := layout.cells name static
    rw [returned.keeps _ (by omega) (by omega) (by omega) (by omega)]
    exact mirror.statics name static

end Mirrors

/-! ### One step of the VM -/

/-- The static a `push` or `pop` names is a static of the program. -/
theorem static_mem {cmds : List Command} {p : Nat} {access : Access} {slot : Slot}
    (at_ : cmds[p]? = some (.memory access slot)) :
    ∀ name, slot = .static name → name ∈ staticNames cmds := by
  rintro name rfl
  exact mem_staticNames.mpr ⟨access, List.mem_of_getElem? at_⟩

section Steps

variable {cmds : List Command} {rom : Array UInt16} {addr : String → UInt16}
  {code : Nat → UInt16} (layout : Layout cmds rom addr code) {s t : State} {m : Machine}
  (related : Realizes cmds rom addr code s m)

include layout related in
/-- The code of the command at the VM's position stands at the machine's program counter. -/
theorem Realizes.placed {cmd : Command} (at_ : cmds[s.pos]? = some cmd) :
    CodeAt m.rom m.pc (instructions addr (cmd.body (comparisons (cmds.take s.pos)))) := by
  rw [related.rom, related.pc, ← instructions_lower]
  exact layout.placed s.pos cmd at_

include layout related in
/-- The word after that code is where the code of the next position starts. -/
theorem Realizes.next {cmd : Command} (at_ : cmds[s.pos]? = some cmd) :
    m.pc + (instructions addr (cmd.body (comparisons (cmds.take s.pos)))).length.toUInt16 =
      code (s.pos + 1) := by
  rw [related.pc, ← instructions_lower, layout.next s.pos cmd at_]

include related in
theorem Realizes.sp : m.get 0 = s.get 0 :=
  related.mirrors.ram 0 (ordinary_register (by decide))

include related in
/-- Machine steps that come to the code of the VM's next position with a RAM that holds the VM's
next memory realise the next state. -/
theorem Realizes.advance {n : Nat} {m' : Machine} (pc : (steps n m).pc = code t.pos)
    (mirror : Mirrors cmds addr t m') (ram : (steps n m).ram = m'.ram) :
    Realizes cmds rom addr code t (steps n m) :=
  ⟨by rw [rom_steps, related.rom], pc, mirror.of_ram ram⟩

include layout related in
/-- The straight code of the command at the VM's position brings the machine to the code of the
next position, with the RAM its instructions leave in order. -/
theorem Realizes.straight {cmd : Command} (at_ : cmds[s.pos]? = some cmd)
    (straight : ∀ p ∈ cmd.body (comparisons (cmds.take s.pos)), p.Straight) {m' : Machine}
    (mirror : Mirrors cmds addr t m') (pos : t.pos = s.pos + 1)
    (ram : ((instructions addr (cmd.body (comparisons (cmds.take s.pos)))).foldl runInst m).ram =
      m'.ram) :
    ∃ n, Realizes cmds rom addr code t (steps n m) := by
  have falls := fallsThrough_instructions addr straight
  have run := steps_straight _ m (related.placed layout at_) falls
  refine ⟨_, related.advance ?_ mirror (by rw [run]; exact ram)⟩
  rw [run, pc_foldl_runInst _ _ falls, related.next layout at_, pos]

include layout related in
/-- An arithmetic command, a comparison among them, unless it is a greater-than or less-than whose
difference overflows. -/
theorem arithmetic_realized {op : ArithOp} (at_ : cmds[s.pos]? = some (.arithmetic op))
    (inMap : (Command.arithmetic op).InMap s) (noOverflow : ¬ (Command.arithmetic op).Overflows s)
    (stepped : s.exec cmds code (.arithmetic op) = some t) :
    ∃ n, Realizes cmds rom addr code t (steps n m) := by
  simp only [State.exec, Option.some.injEq] at stepped
  subst stepped
  obtain ⟨low, high⟩ := inMap
  have floor : 257 ≤ (s.get 0).toNat := by split at low <;> omega
  obtain ⟨n, pc, ram⟩ := arithmetic_step layout.resolution m op _ (s.get 0)
    (related.placed layout at_)
    (fun compares => by rw [related.pc]; exact layout.compares s.pos op at_ compares)
    related.sp (by omega) high
  refine ⟨n, related.advance (pc.trans (related.next layout at_)) (Mirrors.pos ?_ _) ram⟩
  have y : m.get (s.get 0 - 1) = s.get (s.get 0 - 1) :=
    related.mirrors.ram _ (ordinary_below (by simp; omega) (by omega))
  cases unary : op.isUnary
  · -- a binary command pops `y` and writes its answer over `x`
    simp only [unary, Bool.false_eq_true, if_false] at low
    have x : m.get (s.get 0 - 2) = s.get (s.get 0 - 2) :=
      related.mirrors.ram _ (ordinary_below (by simp; omega) (by omega))
    simp only [ArithOp.leave, State.arith, unary, Bool.false_eq_true, if_false, x, y,
      (ArithOp.compute_eq_apply_iff op _ _).mpr noOverflow]
    exact (related.mirrors.set layout (ordinary_register (by decide)) _).set layout
      (ordinary_below (by simp; omega) (by omega)) _
  · simp only [ArithOp.leave, State.arith, unary, if_true, y,
      ArithOp.compute_of_unary unary _ (s.get (s.get 0 - 2))]
    exact related.mirrors.set layout (ordinary_below (by simp; omega) (by omega)) _

include layout related in
theorem push_realized {slot : Slot} (at_ : cmds[s.pos]? = some (.memory .push slot))
    (inMap : (Command.memory .push slot).InMap s)
    (stepped : s.exec cmds code (.memory .push slot) = some t) :
    ∃ n, Realizes cmds rom addr code t (steps n m) := by
  simp only [State.exec, Option.some.injEq] at stepped
  subst stepped
  obtain ⟨low, high, ordinary⟩ := inMap
  have admitted : slot.Admitted .push := layout.fits _ (List.mem_of_getElem? at_)
  have pushes := ram_push layout.resolution m slot admitted (s.get 0) related.sp
  rw [related.mirrors.value (static_mem at_) ordinary] at pushes
  exact related.straight layout at_ (push_straight slot)
    ((related.mirrors.push layout rfl (ordinary_stack low (by omega)) _).pos _) rfl pushes

include layout related in
theorem pop_realized {slot : Slot} (at_ : cmds[s.pos]? = some (.memory .pop slot))
    (inMap : (Command.memory .pop slot).InMap s)
    (stepped : s.exec cmds code (.memory .pop slot) = some t) :
    ∃ n, Realizes cmds rom addr code t (steps n m) := by
  simp only [State.exec, Option.some.injEq] at stepped
  subst stepped
  obtain ⟨low, high, ordinary⟩ := inMap
  have admitted : slot.Admitted .pop := layout.fits _ (List.mem_of_getElem? at_)
  exact related.straight layout at_ (pop_straight slot)
    ((related.mirrors.pop layout admitted (static_mem at_) rfl low high ordinary).pos _) rfl
    (ram_pop layout.resolution m slot admitted (s.get 0) related.sp (by omega) (by omega))

include layout related in
theorem label_realized {name : String} (at_ : cmds[s.pos]? = some (.branch .label name))
    (stepped : s.exec cmds code (.branch .label name) = some t) :
    ∃ n, Realizes cmds rom addr code t (steps n m) := by
  simp only [State.exec, Option.some.injEq] at stepped
  subst stepped
  -- a label takes no word: the next position's code starts at the same word
  refine ⟨0, related.advance ?_ (related.mirrors.pos _) rfl⟩
  rw [← related.next layout at_]
  simp [steps, Command.body, instructions]

include layout related in
theorem goto_realized {name : String} (at_ : cmds[s.pos]? = some (.branch .goto name))
    (stepped : s.exec cmds code (.branch .goto name) = some t) :
    ∃ n, Realizes cmds rom addr code t (steps n m) := by
  obtain ⟨q, found, rfl⟩ := Option.map_eq_some_iff.mp stepped
  have arrives := arrives_goto layout.resolution m name (related.placed layout at_)
  exact ⟨_, related.advance (arrives.1.trans (layout.label q name (labelAt_spec found)))
    (related.mirrors.pos q) arrives.2⟩

include layout related in
theorem ifGoto_realized {name : String} (at_ : cmds[s.pos]? = some (.branch .ifGoto name))
    (inMap : (Command.branch .ifGoto name).InMap s)
    (stepped : s.exec cmds code (.branch .ifGoto name) = some t) :
    ∃ n, Realizes cmds rom addr code t (steps n m) := by
  obtain ⟨low, high⟩ := inMap
  have popped : m.get (s.get 0 - 1) = s.get (s.get 0 - 1) :=
    related.mirrors.ram _ (ordinary_below (by simp; omega) (by omega))
  have arrives := arrives_ifGoto layout.resolution m name (s.get 0) (related.placed layout at_)
    related.sp (top_apart (by omega) (by omega))
  have lowered := related.mirrors.set layout (ordinary_register (x := 0) (by decide)) (s.get 0 - 1)
  simp only [State.exec] at stepped
  split at stepped
  · -- a zero on top: on to the next position
    rename_i zero
    simp only [Option.some.injEq] at stepped
    subst stepped
    refine ⟨_, related.advance (arrives.1.trans ?_) (lowered.pos _) arrives.2⟩
    rw [if_pos (popped.trans zero)]
    exact related.next layout at_
  · rename_i nonzero
    obtain ⟨q, found, rfl⟩ := Option.map_eq_some_iff.mp stepped
    refine ⟨_, related.advance (arrives.1.trans ?_) (lowered.pos _) arrives.2⟩
    rw [if_neg (by rwa [popped])]
    exact layout.label q name (labelAt_spec found)

include layout related in
theorem define_realized {name : String} {locals : UInt16}
    (at_ : cmds[s.pos]? = some (.define name locals)) (inMap : (Command.define name locals).InMap s)
    (stepped : s.exec cmds code (.define name locals) = some t) :
    ∃ n, Realizes cmds rom addr code t (steps n m) := by
  simp only [State.exec, Option.some.injEq] at stepped
  subst stepped
  obtain ⟨low, high⟩ := inMap
  have arrives := arrives_define layout.resolution m name locals.toNat (s.get 0) related.sp
    (fun j below => by omega) (related.placed layout at_)
  exact ⟨_, related.advance (arrives.1.trans (related.next layout at_))
    ((related.mirrors.pushZeros layout rfl locals.toNat low high).pos _) arrives.2⟩

include layout related in
theorem call_realized {name tag : String} {args : UInt16}
    (at_ : cmds[s.pos]? = some (.call name args tag)) (inMap : (Command.call name args tag).InMap s)
    (stepped : s.exec cmds code (.call name args tag) = some t) :
    ∃ n, Realizes cmds rom addr code t (steps n m) := by
  obtain ⟨low, high⟩ := inMap
  obtain ⟨q, found, rfl⟩ := Option.map_eq_some_iff.mp stepped
  obtain ⟨locals, defined⟩ := entryOf_spec found
  have arrives := arrives_call layout.resolution m name tag args.toNat (s.get 0)
    (related.placed layout at_) related.sp (by omega) high
  -- the word the call saves to return to is the code of the next position
  rw [layout.returns s.pos name args tag at_] at arrives
  exact ⟨_, related.advance (arrives.1.trans (layout.entry q name locals defined))
    ((related.mirrors.call layout rfl (by omega) high args.toNat _).pos q) arrives.2⟩

include layout related in
theorem ret_realized (at_ : cmds[s.pos]? = some .ret) (inMap : Command.ret.InMap s)
    (stepped : s.exec cmds code .ret = some t) :
    ∃ n, Realizes cmds rom addr code t (steps n m) := by
  obtain ⟨low, below, above, high⟩ := inMap
  obtain ⟨q, found, rfl⟩ := Option.map_eq_some_iff.mp stepped
  have returned := ret_frame layout.resolution m (s.get 1) (s.get 2) (s.get 0)
    (related.placed layout at_) (related.mirrors.ram 1 (ordinary_register (by decide)))
    (related.mirrors.ram 2 (ordinary_register (by decide))) related.sp (by omega) below above high
  -- control goes to the word saved five below `LCL`, the code of the position the VM resumes at
  refine ⟨_, ⟨by rw [rom_steps, related.rom], ?_,
    (related.mirrors.ret layout returned low below above high).pos q⟩⟩
  rw [returned.jumps, related.mirrors.ram _ (ordinary_below (by simp; omega) (by omega)),
    resumeAt_spec found]

include layout related in
/-- Each step of the VM that keeps to the memory map and does not compare across an overflow is
matched by steps of the machine. -/
theorem step_realized (safe : SafeStep cmds code s t) :
    ∃ n, Realizes cmds rom addr code t (steps n m) := by
  obtain ⟨stepped, guard⟩ := safe
  cases at_ : cmds[s.pos]? with
  | none => simp [State.step, at_] at stepped
  | some cmd =>
    obtain ⟨inMap, noOverflow⟩ := guard cmd at_
    rw [State.step, at_, Option.bind_some] at stepped
    cases cmd with
    | arithmetic op => exact arithmetic_realized layout related at_ inMap noOverflow stepped
    | memory access slot =>
      cases access with
      | push => exact push_realized layout related at_ inMap stepped
      | pop => exact pop_realized layout related at_ inMap stepped
    | branch kind name =>
      cases kind with
      | label => exact label_realized layout related at_ stepped
      | goto => exact goto_realized layout related at_ stepped
      | ifGoto => exact ifGoto_realized layout related at_ inMap stepped
    | define name locals => exact define_realized layout related at_ inMap stepped
    | call name args tag => exact call_realized layout related at_ inMap stepped
    | ret => exact ret_realized layout related at_ inMap stepped

end Steps

/-! ### Runs of the VM -/

/-- A run of safe VM steps from a state the machine realises is matched by a run of the
machine. -/
theorem run_realized {cmds : List Command} {rom : Array UInt16} {addr : String → UInt16}
    {code : Nat → UInt16} (layout : Layout cmds rom addr code) {s₀ s : State} {m₀ : Machine}
    (start : Realizes cmds rom addr code s₀ m₀)
    (run : Relation.ReflTransGen (SafeStep cmds code) s₀ s) :
    ∃ n, Realizes cmds rom addr code s (steps n m₀) := by
  induction run with
  | refl => exact ⟨0, start⟩
  | tail _ safe reached =>
    obtain ⟨n, related⟩ := reached
    obtain ⟨k, next⟩ := step_realized layout related safe
    exact ⟨n + k, by rw [steps_add]; exact next⟩

/-- The words of the bootstrap: those that set the pointers, then the call of `Sys.init`. -/
theorem instructions_bootstrap (addr : String → UInt16) :
    instructions addr Code.bootstrap =
      instructions addr [Code.literal 256, Code.assign Dest.D .a, Code.addr "SP",
        Code.assign Dest.M .d, Code.addr "LCL", Code.assign Dest.MD .negOne, Code.addr "ARG",
        Code.assign Dest.MD .decD, Code.addr "THIS", Code.assign Dest.MD .decD, Code.addr "THAT",
        Code.assign Dest.MD .decD] ++
      instructions addr (Code.call "Sys.init" 0 Code.bootstrapReturn) := by
  have split : Code.bootstrap = [.comment "bootstrap"] ++ [Code.literal 256, Code.assign Dest.D .a,
      Code.addr "SP", Code.assign Dest.M .d, Code.addr "LCL", Code.assign Dest.MD .negOne,
      Code.addr "ARG", Code.assign Dest.MD .decD, Code.addr "THIS", Code.assign Dest.MD .decD,
      Code.addr "THAT", Code.assign Dest.MD .decD] ++ [.comment "call Sys.init 0"] ++
      Code.call "Sys.init" 0 Code.bootstrapReturn := rfl
  rw [split, instructions_append, instructions_append, instructions_append]
  rfl

/-- Setting a pointer below the last: D goes down by one and the pointer takes it. -/
theorem run_nextPointer {addr : String → UInt16} (m : Machine) (name : String) (r : UInt16)
    (register : addr name = r) (small : r.toNat < 32768) :
    (instructions addr [Code.addr name, Code.assign Dest.MD .decD]).foldl runInst m =
      (m.set r (m.d - 1)).withRegs r (m.d - 1) (m.pc + 2) := by
  simp [instructions, Code.addr, Code.assign, Instr.resolve, runInst_load, runInst_assign,
    Dest.MD, Comp.eval, Inst.toWord_load, register, small, UInt16.add_assoc]

/-- The bootstrap sets `SP` to 256 and `LCL`, `ARG`, `THIS`, `THAT` to -1 to -4. -/
theorem run_setup {addr : String → UInt16} (res : Resolution addr) (m : Machine) :
    (instructions addr [Code.literal 256, Code.assign Dest.D .a, Code.addr "SP",
        Code.assign Dest.M .d, Code.addr "LCL", Code.assign Dest.MD .negOne, Code.addr "ARG",
        Code.assign Dest.MD .decD, Code.addr "THIS", Code.assign Dest.MD .decD, Code.addr "THAT",
        Code.assign Dest.MD .decD]).foldl runInst m =
      (((((m.set 0 256).set 1 (-1)).set 2 (-2)).set 3 (-3)).set 4 (-4)).withRegs 4 (-4)
        (m.pc + 12) := by
  have negOne : (65535 : UInt16) = -1 := by decide
  have first : (instructions addr [Code.literal 256, Code.assign Dest.D .a, Code.addr "SP",
      Code.assign Dest.M .d, Code.addr "LCL", Code.assign Dest.MD .negOne]).foldl runInst m =
      ((m.set 0 256).set 1 (-1)).withRegs 1 (-1) (m.pc + 6) := by
    simp [instructions, Code.addr, Code.assign, Code.literal, Instr.resolve, runInst_load,
      runInst_assign, Dest.D, Dest.M, Dest.MD, Comp.eval, Inst.toWord_load, res.sp, res.lcl,
      UInt16.add_assoc, negOne]
  rw [show [Code.literal 256, Code.assign Dest.D .a, Code.addr "SP", Code.assign Dest.M .d,
      Code.addr "LCL", Code.assign Dest.MD .negOne, Code.addr "ARG", Code.assign Dest.MD .decD,
      Code.addr "THIS", Code.assign Dest.MD .decD, Code.addr "THAT", Code.assign Dest.MD .decD] =
      [Code.literal 256, Code.assign Dest.D .a, Code.addr "SP", Code.assign Dest.M .d,
        Code.addr "LCL", Code.assign Dest.MD .negOne] ++ [Code.addr "ARG", Code.assign Dest.MD .decD] ++
      [Code.addr "THIS", Code.assign Dest.MD .decD] ++ [Code.addr "THAT", Code.assign Dest.MD .decD]
      from rfl]
  simp only [instructions_append, List.foldl_append]
  rw [first, run_nextPointer _ "ARG" 2 res.arg (by decide),
    run_nextPointer _ "THIS" 3 res.this (by decide), run_nextPointer _ "THAT" 4 res.that (by decide)]
  -- the words are decided one by one: the simplifier's own subtraction of literals is too deep
  -- for the kernel here
  have two : (-1 : UInt16) - 1 = -2 := by decide
  have three : (-2 : UInt16) - 1 = -3 := by decide
  have four : (-3 : UInt16) - 1 = -4 := by decide
  simp only [d_withRegs, pc_withRegs, set_withRegs, withRegs_withRegs, two, three, four,
    UInt16.add_assoc, UInt16.reduceAdd]

/-- The bootstrap, run by the machine loaded with the program, realises the VM's start: `Sys.init`
entered from the reset memory. -/
theorem boot_realized {cmds : List Command} {rom : Array UInt16} {addr : String → UInt16}
    {code : Nat → UInt16} (layout : Layout cmds rom addr code) (fits : rom.size ≤ romCapacity)
    {s₀ : State} (booted : State.boot cmds code = some s₀) :
    ∃ n, Realizes cmds rom addr code s₀ (steps n (Machine.initial.withRom rom fits)) := by
  obtain ⟨q, found, rfl⟩ := Option.map_eq_some_iff.mp booted
  obtain ⟨locals, defined⟩ := entryOf_spec found
  have placed : CodeAt (Machine.initial.withRom rom fits).rom (Machine.initial.withRom rom fits).pc
      (instructions addr Code.bootstrap) := layout.bootstrap
  rw [instructions_bootstrap, codeAt_append] at placed
  obtain ⟨setupAt, callAt⟩ := placed
  have setup := steps_straight _ _ setupAt (fallsThrough_instructions addr (by simp))
  rw [run_setup layout.resolution] at setup
  -- the machine's memory starts as the VM's, zero, and the bootstrap sets the pointers on both
  have zero : Mirrors cmds addr
      { ram := Vector.replicate ramSize 0, statics := fun _ => 0, pos := 0 }
      (Machine.initial.withRom rom fits) :=
    ⟨fun x _ => rfl, fun name _ => Vector.getElem_replicate (slot (addr name)).isLt⟩
  have reset : Mirrors cmds addr State.reset (steps _ (Machine.initial.withRom rom fits)) :=
    Mirrors.of_ram (((((zero.set layout (ordinary_register (x := 0) (by decide)) 256).set layout
      (ordinary_register (x := 1) (by decide)) (-1)).set layout
      (ordinary_register (x := 2) (by decide)) (-2)).set layout
      (ordinary_register (x := 3) (by decide)) (-3)).set layout
      (ordinary_register (x := 4) (by decide)) (-4)) (by rw [setup]; rfl)
  have resetSp : State.reset.get 0 = 256 := by
    simp [State.reset, State.get_set]
  have called := arrives_call layout.resolution _ "Sys.init" Code.bootstrapReturn 0 256
    (by rw [rom_steps, setup]; exact callAt) (reset.ram 0 (ordinary_register (by decide)) ▸ resetSp)
    (by decide) (by decide)
  rw [layout.bootReturn] at called
  have realized : Realizes cmds rom addr code _ (steps _ (steps _ (Machine.initial.withRom rom fits))) :=
    ⟨by rw [rom_steps, rom_steps]; rfl, called.1.trans (layout.entry q "Sys.init" locals defined),
      ((reset.call layout resetSp (by decide) (by decide) 0 (code 0)).pos q).of_ram called.2⟩
  rw [← steps_add] at realized
  exact ⟨_, realized⟩

/-! ### The translated program simulates the VM -/

/-- Translation with the bootstrap, then assembly, is correct. Take a closed program: its jumps
and calls name labels and functions it defines, `Sys.init` among them, no label is named like a
static and it has at most 240 statics. If it translates and the text assembles, then the machine
loaded with the words starts, after the bootstrap, where the VM starts, and every state the VM
reaches by steps that keep to the memory map and compare no words whose difference overflows is
realised by the machine after some number of steps: its program counter is at the code of the
VM's position, the RAM words the VM addresses are the VM's, and each static is in its cell. -/
theorem translation_simulation {units : List SourceFile} {options : Options} {text file : String}
    {words : Array UInt16} (symbols : ∀ u ∈ units, isSymbol u.name = true)
    (bootstrap : options.bootstrap = true) (translated : translate units options = .ok text)
    (assembled : assemble file text = .ok words) (closed : Closed units options) :
    ∃ m₀ s₀, Machine.initial.loadRom words = .ok m₀ ∧
      State.boot (units.flatMap SourceFile.commands)
        (codeStart (units.flatMap SourceFile.commands)) = some s₀ ∧
      ∀ s, Relation.ReflTransGen (SafeStep (units.flatMap SourceFile.commands)
          (codeStart (units.flatMap SourceFile.commands))) s₀ s →
        ∃ n, Realizes (units.flatMap SourceFile.commands) words (symbolWord file text)
          (codeStart (units.flatMap SourceFile.commands)) s (steps n m₀) := by
  have layout := layout_translate symbols translated assembled bootstrap closed
  have fits : words.size ≤ romCapacity := by
    have listed := length_le_romSize (assembleReference_of_assemble assembled)
    rw [Array.length_toList] at listed
    exact listed
  obtain ⟨locals, defined⟩ := closed.sysInit
  obtain ⟨q, found⟩ := Option.isSome_iff_exists.mp (entryOf_isSome defined)
  have booted : State.boot (units.flatMap SourceFile.commands)
      (codeStart (units.flatMap SourceFile.commands)) =
      some { State.reset.call 0 (codeStart (units.flatMap SourceFile.commands) 0) with pos := q } := by
    rw [State.boot, found]
    rfl
  refine ⟨_, _, by rw [Machine.loadRom, dif_neg (Nat.not_lt.mpr fits)], booted, fun s run => ?_⟩
  obtain ⟨n, start⟩ := boot_realized layout fits booted
  obtain ⟨k, reached⟩ := run_realized layout start run
  exact ⟨n + k, by rw [steps_add]; exact reached⟩

/-- A program whose `Sys.init` stores 7 in a static and then loops. -/
def sysUnit : SourceFile :=
  ⟨"Sys", "Sys.vm", "function Sys.init 0\npush constant 7\npop static 0\nlabel LOOP\ngoto LOOP\n"⟩

theorem translation_simulation_sys :
    Closed [sysUnit] {} ∧ ∃ text words, translate [sysUnit] {} = .ok text ∧
      assemble "Sys.asm" text = .ok words ∧
      ∃ m₀ s₀, Machine.initial.loadRom words = .ok m₀ ∧
        State.boot ([sysUnit].flatMap SourceFile.commands)
          (codeStart ([sysUnit].flatMap SourceFile.commands)) = some s₀ ∧
        ∀ s, Relation.ReflTransGen (SafeStep ([sysUnit].flatMap SourceFile.commands)
            (codeStart ([sysUnit].flatMap SourceFile.commands))) s₀ s →
          ∃ n, Realizes ([sysUnit].flatMap SourceFile.commands) words (symbolWord "Sys.asm" text)
            (codeStart ([sysUnit].flatMap SourceFile.commands)) s (steps n m₀) := by
  have read : sysUnit.read = .ok [.define "Sys.init" 0, .memory .push (.constant 7),
      .memory .pop (.static "Sys.0"), .branch .label "Sys.init$LOOP", .branch .goto "Sys.init$LOOP"] := by
    rfl
  have commands : [sysUnit].flatMap SourceFile.commands = [.define "Sys.init" 0,
      .memory .push (.constant 7), .memory .pop (.static "Sys.0"), .branch .label "Sys.init$LOOP",
      .branch .goto "Sys.init$LOOP"] := by
    rw [List.flatMap_singleton, SourceFile.commands, read]
  have reads : ∀ u ∈ [sysUnit], u.read = .ok u.commands := by
    simp only [List.mem_singleton, forall_eq, SourceFile.commands, read]
  have symbols : ∀ u ∈ [sysUnit], isSymbol u.name = true := by
    simp only [List.mem_singleton, forall_eq]
    decide
  have translated := translate_of_read {} reads
  have closed : Closed [sysUnit] {} := by
    refine ⟨?_, ?_, ⟨0, by simp [commands]⟩, ?_, by rw [commands]; decide⟩
    · intro kind name jump
      rw [commands] at jump ⊢
      simp only [List.mem_cons, Command.branch.injEq, reduceCtorEq, List.not_mem_nil, false_or,
        or_false] at jump
      rcases jump with ⟨-, rfl⟩ | ⟨-, rfl⟩ <;> simp
    · intro name args tag call
      simp [commands] at call
    · intro name static
      rw [commands] at static
      simp [staticNames] at static
      subst static
      rw [programCode, commands]
      decide
  have defined : functions [sysUnit] = ["Sys.init"] := by
    simp only [functions, SourceFile.functions, List.flatMap_cons, List.flatMap_nil,
      List.append_nil, SourceFile.commands, read]
    rfl
  have labelled : branchLabels [sysUnit] = [("Sys.init", "Sys.init$LOOP")] := by
    simp only [branchLabels, programView, List.flatMap_cons, List.flatMap_nil, List.append_nil,
      SourceFile.scoped, SourceFile.commands, read, Scope.annotate, Scope.init, Scope.advance]
    rfl
  have named : WellNamed [sysUnit] :=
    ⟨by decide, symbols, by rw [defined]; decide, by rw [labelled]; decide⟩
  have free : Unreserved [sysUnit] := by
    refine ⟨by decide, ?_, ?_, ?_, ?_, ?_, ?_⟩ <;>
      simp only [defined, labelled, List.mem_singleton, forall_eq]
    · decide
    · decide
    · decide
    · intro n same
      have chars := congrArg String.toList same
      simp at chars
    · decide
    · intro k same
      have chars := congrArg String.toList same
      simp at chars
  have fits : codeWidth (programCode [sysUnit] {}) < romSize := by
    rw [programCode, commands]
    decide
  obtain ⟨words, assembled⟩ :=
    assemble_translate_ok "Sys.asm" translated rfl named free closed fits
  exact ⟨closed, _, words, translated, assembled,
    translation_simulation symbols rfl translated assembled closed⟩

end Hack.Vm
