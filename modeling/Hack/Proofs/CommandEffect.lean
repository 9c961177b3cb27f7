import Hack.Proofs.Arithmetic
import Hack.Proofs.Naming
/-! What the code of one VM command does on the machine's RAM, against the VM's own step. -/

set_option autoImplicit false

namespace Hack.Vm

/-! ### What the reader admits -/

/-- The slots the reader admits for an access: a constant only to push, and a constant and a frame
index fit a load, a temp index is below 8 and a pointer index below 2. -/
def Slot.Admitted (access : Access) : Slot → Prop
  | .constant v => access = .push ∧ v.toNat ≤ loadMax
  | .static _ => True
  | .temp i => i.toNat < 8
  | .pointer i => i.toNat < 2
  | .frame _ i => i.toNat ≤ loadMax

/-- A slot the grammar admits has an index its segment admits: the constant segment is never
popped into, and the grammar's ranges are those of `Admitted`. -/
theorem Segment.slotIn_admitted {file : String} {access : Access} {segment : Segment} {n : UInt16}
    (notPopConstant : ¬ (access = .pop ∧ segment = .constant)) (admitted : segment.Admits n.toNat) :
    (segment.slotIn file n).Admitted access := by
  cases segment
  case constant =>
    cases access
    · exact ⟨rfl, admitted⟩
    · exact absurd ⟨rfl, rfl⟩ notPopConstant
  case static => trivial
  all_goals exact admitted

/-- The numbers a command puts in its code fit a load: a slot's index suits its segment, and a
call leaves room below the load limit for the frame it saves. -/
def Command.Fits : Command → Prop
  | .memory access slot => slot.Admitted access
  | .call _ args _ => args.toNat + frameSize ≤ loadMax
  | _ => True

theorem readWords_fits {s : Scope} {head : String} {args : List String} {cmd : Command}
    (h : s.readWords head args = .ok (some cmd)) : cmd.Fits := by
  -- only the rules that give a command remain; each checked the numbers it puts in the code
  cases commandGrammar_of_readWords h with
  | arithmetic op => trivial
  | ret => trivial
  | memory access segment number notPopConstant admitted =>
    exact Segment.slotIn_admitted notPopConstant admitted
  | branch kind symbol => trivial
  | define symbol number => trivial
  | call symbol number fits =>
    show _ + frameSize ≤ loadMax
    simp only [frameSize, loadMax]
    omega

/-- A command the reader gives puts only numbers that fit a load in its code. -/
theorem read_fits {s : Scope} {line : String} {cmd : Command}
    (h : s.read line = .ok (some cmd)) : cmd.Fits := by
  unfold Scope.read at h
  split at h
  · cases h
  · exact readWords_fits h

/-- A slot the reader gives has an index its segment admits. -/
theorem read_admitted {s : Scope} {line : String} {access : Access} {slot : Slot}
    (h : s.read line = .ok (some (.memory access slot))) : slot.Admitted access :=
  read_fits h

/-! ### What a command does on the VM -/

/-- The RAM word of a segment's base pointer: `LCL` is word 1, `ARG` 2, `THIS` 3 and `THAT` 4. -/
def Base.pointer : Base → UInt16
  | .locals => 1
  | .argument => 2
  | .this => 3
  | .that => 4

open Machine

/-- The RAM word a slot names, on a machine whose symbols resolve by `addr`: a static is its
symbol's word, temp `i` is word `5 + i`, pointer `i` is word `3 + i`, and a frame slot lies its
index above the word its base pointer holds. A constant names no word. -/
def Slot.address (addr : String → UInt16) (m : Machine) : Slot → UInt16
  | .constant _ => 0
  | .static name => addr name
  | .temp i => 5 + i
  | .pointer i => 3 + i
  | .frame base i => m.get base.pointer + i

/-- The word a push puts on the stack: a constant itself, else the word the slot names. -/
def Slot.value (addr : String → UInt16) (m : Machine) : Slot → UInt16
  | .constant v => v
  | slot => m.get (slot.address addr m)

/-- The machine after a pop from the stack whose top is at `sp - 1`: `SP` goes down, then the
slot's word takes the popped word. A frame slot's address is first parked in `R13`. -/
def Slot.popInto (addr : String → UInt16) (m : Machine) (sp : UInt16) (slot : Slot) : Machine :=
  let target := slot.address addr m
  let parked := match slot with
    | .frame .. => m.set 13 target
    | _ => m
  (parked.set 0 (sp - 1)).set target (m.get (sp - 1))

end Hack.Vm

namespace Hack.Machine

/-- The machine after `k` zeros are pushed onto the VM stack at `sp`. -/
def pushZeros (m : Machine) (sp : UInt16) : Nat → Machine
  | 0 => m
  | k + 1 => (m.pushed sp 0).pushZeros (sp + 1) k

/-- Running `n` steps from `m` comes to the word where `m'` stands, with the RAM of `m'`. -/
def Arrives (n : Nat) (m m' : Machine) : Prop :=
  (steps n m).pc = m'.pc ∧ (steps n m).ram = m'.ram

end Hack.Machine

namespace Hack.Vm

open Machine

/-- The commands whose code runs each of its words once: all but the comparisons, whose code
branches on a wrapped difference, and calls and returns, which leave the function. -/
def Command.Simple : Command → Prop
  | .arithmetic op => op.comparison? = none
  | .call .. | .ret => False
  | _ => True

/-- What a command does on the VM, on a machine with `SP = sp` whose symbols resolve by `addr`,
where `next` is the word after the command's code: the machine it leaves, with the RAM it writes
and the word control goes to. A call or a return, which is no simple command, keeps the
machine. -/
def Command.vmStep (addr : String → UInt16) (next : UInt16) (m : Machine) (sp : UInt16) :
    Command → Machine
  | .arithmetic op => { op.leave m sp (op.apply (m.get (sp - 2)) (m.get (sp - 1))) with pc := next }
  | .memory .push slot => { m.pushed sp (slot.value addr m) with pc := next }
  | .memory .pop slot => { slot.popInto addr m sp with pc := next }
  | .branch .label _ => { m with pc := next }
  | .branch .goto label => { m with pc := addr label }
  | .branch .ifGoto label =>
    { m.set 0 (sp - 1) with pc := if m.get (sp - 1) = 0 then next else addr label }
  | .define _ locals => { m.pushZeros sp locals.toNat with pc := next }
  | .call .. | .ret => m

/-- The stack words a command reads or writes when `SP = sp`. -/
def Command.stackWords (sp : Nat) : Command → List Nat
  | .arithmetic op => if op.isUnary then [sp - 1] else [sp - 2, sp - 1]
  | .memory .push _ => [sp]
  | .memory .pop _ => [sp - 1]
  | .branch .ifGoto _ => [sp - 1]
  | .define _ locals => List.range' sp locals.toNat
  | _ => []

end Hack.Vm

namespace Hack.Machine

/-- Code that never jumps, run from its first word, comes to the word after it with the RAM its
instructions leave in order. -/
theorem arrives_straight {code : List Inst} {m m' : Machine} (placed : CodeAt m.rom m.pc code)
    (straight : ∀ i ∈ code, i.FallsThrough) (ram : (code.foldl runInst m).ram = m'.ram)
    (pc : m'.pc = m.pc + code.length.toUInt16) : Arrives code.length m m' :=
  ⟨by rw [steps_straight code m placed straight, pc_foldl_runInst code m straight, pc],
    by rw [steps_straight code m placed straight, ram]⟩

@[simp] theorem pushZeros_withRegs (m : Machine) (a d pc sp : UInt16) (k : Nat) :
    (m.withRegs a d pc).pushZeros sp k = (m.pushZeros sp k).withRegs a d pc := by
  induction k generalizing m sp with
  | zero => rfl
  | succ k ih => simp only [pushZeros, pushed_withRegs, ih]

end Hack.Machine

namespace Hack.Vm

open Machine

theorem Base.pointer_lt (base : Base) : base.pointer.toNat < 32768 := by
  cases base <;> decide

/-- The pieces of code that never jump: labels, comments, loads and computes without a jump. -/
def Piece.Straight : Piece → Prop
  | .instr (.compute _ _ jump) => jump = Jump.none
  | _ => True

theorem fallsThrough_instructions (addr : String → UInt16) {pieces : List Piece}
    (straight : ∀ p ∈ pieces, p.Straight) : ∀ i ∈ instructions addr pieces, i.FallsThrough := by
  intro i member
  obtain ⟨p, inPieces, resolves⟩ := List.mem_filterMap.mp member
  have pieceStraight := straight p inPieces
  cases p with
  | instr j =>
    cases j with
    | load address =>
      cases address <;> (simp only [Instr.resolve, Option.some.injEq] at resolves; subst resolves; trivial)
    | compute dest comp jump =>
      simp only [Instr.resolve, Option.some.injEq] at resolves
      subst resolves
      exact pieceStraight
  | label name => cases resolves
  | comment text => cases resolves

theorem instructions_lower (addr : String → UInt16) (id : Nat) (cmd : Command) :
    instructions addr (cmd.lower id) = instructions addr (cmd.body id) := by
  simp [Command.lower, instructions]

section Blocks

variable {addr : String → UInt16} (res : Resolution addr) (m : Machine)
include res

theorem Resolution.r13 : addr "R13" = 13 := res.keeps "R13" 13 (by decide)

theorem Resolution.register (base : Base) : addr base.register = base.pointer := by
  cases base
  · exact res.lcl
  · exact res.arg
  · exact res.this
  · exact res.that

/-- Temp `i` below 8 is one of the predefined `R5` to `R12`. -/
theorem Resolution.temp (i : UInt16) (small : i.toNat < 8) :
    addr (Code.tempRegister i) = 5 + i := by
  have table : ∀ n : Fin 8, List.lookup ("R" ++ toString (5 + n.val)) predefined =
      some (5 + n.val).toUInt16 := by decide
  rw [Code.tempRegister_of_le (by omega), res.keeps _ _ (table ⟨i.toNat, small⟩)]
  apply UInt16.toNat_inj.mp
  simp only [Nat.toUInt16_eq, UInt16.toNat_ofNat', UInt16.toNat_add, UInt16.reduceToNat]

theorem Resolution.pointer (i : UInt16) (small : i.toNat < 2) :
    addr (Code.pointerRegister i) = 3 + i := by
  unfold Code.pointerRegister
  split
  · rename_i zero
    rw [zero, res.this]
    rfl
  · rename_i notZero
    have one : i = 1 := by
      apply UInt16.toNat_inj.mp
      have positive : i.toNat ≠ 0 := fun zero => notZero (UInt16.toNat_inj.mp zero)
      simp only [UInt16.reduceToNat]
      omega
    rw [one, res.that]
    rfl

omit res in
/-- Loading a constant that fits a load into D. -/
theorem run_loadConstant (v : UInt16) (small : v.toNat ≤ loadMax) :
    (instructions addr [Code.literal v.toNat, Code.assign Dest.D .a]).foldl runInst m =
      m.withRegs v v (m.pc + 2) := by
  have fits : v.toNat < 32768 := by
    simp only [loadMax] at small
    omega
  simp [instructions, Code.literal, Code.assign, Instr.resolve, runInst_load, runInst_assign,
    Dest.D, Comp.eval, Inst.toWord_load, fits, UInt16.add_assoc]

/-- Reading a frame slot: A takes the slot's address, its index above the base, and D its word. -/
theorem run_readFrame (base : Base) (i : UInt16) (small : i.toNat ≤ loadMax) :
    ∃ pc, (instructions addr ([Code.addr base.register, Code.assign Dest.AD .m] ++
        Code.offset Dest.A i ++ [Code.assign Dest.D .m])).foldl runInst m =
      m.withRegs (m.get base.pointer + i) (m.get (m.get base.pointer + i)) pc := by
  have fits : i.toNat < 32768 := by
    simp only [loadMax] at small
    omega
  unfold Code.offset
  split
  · rename_i zero
    subst zero
    exact ⟨_, by simp [instructions, Code.addr, Code.assign, Instr.resolve, runInst_load,
      runInst_assign, Dest.AD, Dest.D, Comp.eval, res.register, Base.pointer_lt, Inst.toWord_load]; rfl⟩
  · split
    · rename_i one
      subst one
      exact ⟨_, by simp [instructions, Code.addr, Code.assign, Instr.resolve, runInst_load,
        runInst_assign, Dest.AD, Dest.A, Dest.D, Comp.eval, res.register, Base.pointer_lt,
        Inst.toWord_load]; rfl⟩
    · exact ⟨_, by simp [instructions, Code.addr, Code.assign, Code.literal, Instr.resolve,
        runInst_load, runInst_assign, Dest.AD, Dest.A, Dest.D, Comp.eval, res.register,
        Base.pointer_lt, Inst.toWord_load, fits]; rfl⟩

/-- Parking a frame slot's address in `R13`. -/
theorem run_parkFrame (base : Base) (i : UInt16) (small : i.toNat ≤ loadMax) :
    ∃ pc, (instructions addr ([Code.addr base.register, Code.assign Dest.D .m] ++
        Code.offset Dest.D i ++ [Code.addr "R13", Code.assign Dest.M .d])).foldl runInst m =
      (m.set 13 (m.get base.pointer + i)).withRegs 13 (m.get base.pointer + i) pc := by
  have fits : i.toNat < 32768 := by
    simp only [loadMax] at small
    omega
  unfold Code.offset
  split
  · rename_i zero
    subst zero
    exact ⟨_, by simp [instructions, Code.addr, Code.assign, Instr.resolve, runInst_load,
      runInst_assign, Dest.M, Dest.D, Comp.eval, res.register, res.r13, Base.pointer_lt,
      Inst.toWord_load]; rfl⟩
  · split
    · rename_i one
      subst one
      exact ⟨_, by simp [instructions, Code.addr, Code.assign, Instr.resolve, runInst_load,
        runInst_assign, Dest.M, Dest.D, Comp.eval, res.register, res.r13, Base.pointer_lt,
        Inst.toWord_load]; rfl⟩
    · exact ⟨_, by simp [instructions, Code.addr, Code.assign, Code.literal, Instr.resolve,
        runInst_load, runInst_assign, Dest.M, Dest.D, Comp.eval, res.register, res.r13,
        Base.pointer_lt, Inst.toWord_load, fits]; rfl⟩

/-- Storing D at the address parked in `R13`. -/
theorem run_storeParked (t : UInt16) (parked : m.get 13 = t) :
    (instructions addr [Code.addr "R13", Code.assign Dest.A .m, Code.assign Dest.M .d]).foldl
        runInst m = (m.set t m.d).withRegs t m.d (m.pc + 3) := by
  simp [instructions, Code.addr, Code.assign, Instr.resolve, runInst_load, runInst_assign,
    Dest.A, Dest.M, Comp.eval, res.r13, Inst.toWord_load, parked, UInt16.add_assoc]

/-- Pushing a zero: `SP` goes up and the word it pointed at becomes zero. -/
theorem run_pushZero :
    (instructions addr [Code.addr "SP", Code.assign Dest.M .incM, Code.assign Dest.A .decM,
        Code.assign Dest.M .zero]).foldl runInst m =
      (m.pushed (m.get 0) 0).withRegs (m.get 0) m.d (m.pc + 4) := by
  simp [instructions, Code.addr, Code.assign, Instr.resolve, runInst_load, runInst_assign,
    Dest.M, Dest.A, Comp.eval, res.sp, Inst.toWord_load, UInt16.add_assoc, pushed]

end Blocks

/-! ### Straight code -/

@[simp] theorem straight_addr (name : String) : (Code.addr name).Straight := trivial

@[simp] theorem straight_literal (n : Nat) : (Code.literal n).Straight := trivial

@[simp] theorem straight_assign (dest : Dest) (comp : Comp) : (Code.assign dest comp).Straight :=
  rfl

@[simp] theorem straight_label (name : String) : (Piece.label name).Straight := trivial

theorem offset_straight (dest : Dest) (i : UInt16) : ∀ p ∈ Code.offset dest i, p.Straight := by
  unfold Code.offset
  split
  · simp
  · split <;> simp

theorem binary_straight (comp : Comp) : ∀ p ∈ Code.binary comp, p.Straight := by
  simp [Code.binary]

theorem unary_straight (comp : Comp) : ∀ p ∈ Code.unary comp, p.Straight := by
  simp [Code.unary]

theorem push_straight (slot : Slot) : ∀ p ∈ Code.push slot, p.Straight := by
  cases slot <;> simp only [Code.push, List.forall_mem_append] <;> simp [Code.pushD]
  exact offset_straight _ _

theorem pop_straight (slot : Slot) : ∀ p ∈ Code.pop slot, p.Straight := by
  cases slot <;> simp only [Code.pop, List.forall_mem_append] <;> simp [Code.popD]
  exact offset_straight _ _

theorem define_straight (name : String) (k : Nat) : ∀ p ∈ Code.define name k, p.Straight := by
  intro p member
  rcases List.mem_cons.mp member with rfl | member
  · trivial
  obtain ⟨block, repeated, inBlock⟩ := List.mem_flatten.mp member
  rw [(List.mem_replicate.mp repeated).2] at inBlock
  simp only [List.mem_cons, List.not_mem_nil, or_false] at inBlock
  rcases inBlock with rfl | rfl | rfl | rfl <;> simp

/-! ### The RAM each command leaves -/

section Commands

variable {addr : String → UInt16} (res : Resolution addr) (m : Machine)
include res

/-- A push of a slot the reader admits writes the slot's value at `SP` and moves `SP` up. -/
theorem ram_push (slot : Slot) (admitted : slot.Admitted .push) (sp : UInt16) (top : m.get 0 = sp) :
    ((instructions addr (Code.push slot)).foldl runInst m).ram =
      (m.pushed sp (slot.value addr m)).ram := by
  cases slot with
  | constant v =>
    rw [Code.push, instructions_append, List.foldl_append, run_loadConstant m v admitted.2,
      run_pushD res]
    simp [top, Slot.value]
  | static name =>
    rw [Code.push, run_pushWord res]
    simp [top, Slot.value, Slot.address]
  | temp i =>
    rw [Code.push, run_pushWord res, res.temp i admitted]
    simp [top, Slot.value, Slot.address]
  | pointer i =>
    rw [Code.push, run_pushWord res, res.pointer i admitted]
    simp [top, Slot.value, Slot.address]
  | frame base i =>
    obtain ⟨pc, read⟩ := run_readFrame res m base i admitted
    rw [Code.push, instructions_append, List.foldl_append, read, run_pushD res]
    simp [top, Slot.value, Slot.address]

/-- A pop into a slot the reader admits moves `SP` down and writes the popped word into the slot;
a frame slot's address waits in `R13` meanwhile. -/
theorem ram_pop (slot : Slot) (admitted : slot.Admitted .pop) (sp : UInt16) (top : m.get 0 = sp)
    (low : 17 ≤ sp.toNat) (high : sp.toNat ≤ 32768) :
    ((instructions addr (Code.pop slot)).foldl runInst m).ram = (slot.popInto addr m sp).ram := by
  have apart : (sp - 1).toNat % 32768 ≠ 0 := top_apart (by omega) high
  cases slot with
  | constant v => exact absurd admitted.1 (by decide)
  | static name =>
    rw [Code.pop, run_restore res m name (addr name) sp rfl top apart]
    simp [Slot.popInto, Slot.address]
  | temp i =>
    rw [Code.pop, run_restore res m _ (5 + i) sp (res.temp i admitted) top apart]
    simp [Slot.popInto, Slot.address]
  | pointer i =>
    rw [Code.pop, run_restore res m _ (3 + i) sp (res.pointer i admitted) top apart]
    simp [Slot.popInto, Slot.address]
  | frame base i =>
    have shape : Code.pop (.frame base i) =
        ([Code.addr base.register, Code.assign Dest.D .m] ++ Code.offset Dest.D i ++
          [Code.addr "R13", Code.assign Dest.M .d]) ++
        (Code.popD ++ [Code.addr "R13", Code.assign Dest.A .m, Code.assign Dest.M .d]) := by
      simp [Code.pop]
    let target := m.get base.pointer + i
    -- the stack word popped lies above `R13`, so parking the address keeps it
    have popped : (sp - 1).toNat % 32768 ≠ 13 := by
      simp only [UInt16.toNat_sub, UInt16.reduceToNat]
      omega
    obtain ⟨pc, parked⟩ := run_parkFrame res m base i admitted
    have top₁ : ((m.set 13 target).withRegs 13 target pc).get 0 = sp := by
      rw [get_withRegs, get_set_of_ne _ _ _ _ (by decide), top]
    rw [shape, instructions_append, List.foldl_append, parked, instructions_append,
      List.foldl_append, run_popD res _ sp top₁ apart, run_storeParked res _ target]
    · simp [Slot.popInto, Slot.address, target,
        get_set_of_ne _ (13 : UInt16) (sp - 1) _ (by simpa using popped.symm)]
    · simp [get_set_of_ne _ (0 : UInt16) (13 : UInt16) _ (by decide)]

/-- The zeros of a function's locals: each block pushes one zero, so `k` blocks push `k` zeros
at `sp` and up. -/
theorem ram_zeros (k : Nat) (sp : UInt16) (top : m.get 0 = sp)
    (stack : ∀ j < k, 16 ≤ sp.toNat + j ∧ sp.toNat + j ≤ 32767) :
    ((instructions addr (List.replicate k [Code.addr "SP", Code.assign Dest.M .incM,
        Code.assign Dest.A .decM, Code.assign Dest.M .zero]).flatten).foldl runInst m).ram =
      (m.pushZeros sp k).ram := by
  induction k generalizing m sp with
  | zero => rfl
  | succ k ih =>
    have here := stack 0 (Nat.zero_lt_succ k)
    rw [List.replicate_succ, List.flatten_cons, instructions_append, List.foldl_append,
      run_pushZero res, top]
    -- the next block starts from `SP = sp + 1`, one word higher
    have top₁ : ((m.pushed sp 0).withRegs sp m.d (m.pc + 4)).get 0 = sp + 1 := by
      rw [get_withRegs, get_pushed_sp _ _ _ (by omega)]
    have next : (sp + 1).toNat = sp.toNat + 1 := by
      simp only [UInt16.toNat_add, UInt16.reduceToNat]
      omega
    rw [ih _ (sp + 1) top₁ (fun j small => by rw [next]; have := stack (j + 1) (by omega); omega)]
    simp [pushZeros]

omit res in
/-- `JNE` is taken exactly on a word other than zero. -/
theorem taken_JNE (w : UInt16) : Jump.JNE.taken w = (w != 0) := by
  cases negative : Jump.isNegative w <;> by_cases zero : w = 0 <;>
    simp_all [Jump.taken, Jump.JNE, Jump.isNegative, UInt16.not_le.mpr]

/-- An unconditional jump to a label: control goes to the label's word, and the RAM stays. -/
theorem arrives_goto (label : String)
    (placed : CodeAt m.rom m.pc (instructions addr [Code.addr label, Code.branchOn .zero Jump.JMP])) :
    Arrives (instructions addr [Code.addr label, Code.branchOn .zero Jump.JMP]).length m
      { m with pc := addr label } := by
  have split : instructions addr [Code.addr label, Code.branchOn .zero Jump.JMP] =
      [Inst.load (addr label)] ++ [.compute Dest.none .zero Jump.JMP] := rfl
  rw [split] at placed ⊢
  have run := steps_straight_then _ _ m placed (by simp [Inst.FallsThrough])
  show Arrives ([Inst.load (addr label)].length + 1) m _
  constructor
  · rw [run, pc_runInst_goto, List.foldl_cons, List.foldl_nil, runInst_load, a_withRegs,
      Inst.toWord_load _ (res.fits label)]
  · rw [run, ram_runInst_branch, List.foldl_cons, List.foldl_nil, runInst_load]
    rfl

/-- A conditional jump pops the top word and goes to the label unless the word is zero, in which
case it falls through to `next`, the word after its code. -/
theorem arrives_ifGoto (label : String) (sp : UInt16)
    (placed : CodeAt m.rom m.pc
      (instructions addr (Code.popD ++ [Code.addr label, Code.branchOn .d Jump.JNE])))
    (top : m.get 0 = sp) (apart : (sp - 1).toNat % 32768 ≠ 0) :
    Arrives (instructions addr (Code.popD ++ [Code.addr label, Code.branchOn .d Jump.JNE])).length m
      { m.set 0 (sp - 1) with
        pc := if m.get (sp - 1) = 0 then
          m.pc + (instructions addr
            (Code.popD ++ [Code.addr label, Code.branchOn .d Jump.JNE])).length.toUInt16
          else addr label } := by
  have split : instructions addr (Code.popD ++ [Code.addr label, Code.branchOn .d Jump.JNE]) =
      (instructions addr Code.popD ++ [Inst.load (addr label)]) ++
        [.compute Dest.none .d Jump.JNE] := by
    simp [instructions, Code.addr, Code.branchOn, Instr.resolve]
  rw [split] at placed ⊢
  have run := steps_straight_then _ _ m placed (by
    simp [instructions, Code.popD, Code.addr, Code.assign, Instr.resolve, Inst.FallsThrough])
  rw [List.foldl_append, run_popD res m sp top apart, List.foldl_cons, List.foldl_nil,
    runInst_load] at run
  show Arrives ((instructions addr Code.popD ++ [Inst.load (addr label)]).length + 1) m _
  constructor
  · rw [run, pc_runInst_branch]
    by_cases zero : m.get (sp - 1) = 0 <;>
      simp [zero, Comp.eval, taken_JNE, Inst.toWord_load, res.fits, UInt16.add_assoc, instructions,
        Code.popD, Code.addr, Code.assign]
  · rw [run, ram_runInst_branch]
    rfl

/-- A binary command that is no comparison replaces the two top words by `op` of them. -/
theorem arrives_binary (op : ArithOp) (comp : Comp) (sp : UInt16) (binary : op.isUnary = false)
    (result : ∀ x y, comp.eval y (sp - 2) x = op.apply x y)
    (placed : CodeAt m.rom m.pc (instructions addr (Code.binary comp)))
    (top : m.get 0 = sp) (low : 2 < sp.toNat) (high : sp.toNat ≤ 32768) :
    Arrives (instructions addr (Code.binary comp)).length m
      { op.leave m sp (op.apply (m.get (sp - 2)) (m.get (sp - 1))) with
        pc := m.pc + (instructions addr (Code.binary comp)).length.toUInt16 } := by
  refine arrives_straight placed (fallsThrough_instructions addr (binary_straight comp)) ?_ rfl
  show _ = (op.leave m sp _).ram
  rw [run_binary res m comp sp top low high, ram_withRegs, ArithOp.leave, binary,
    if_neg Bool.false_ne_true, result]

/-- A unary command replaces the top word by `op` of it. -/
theorem arrives_unary (op : ArithOp) (comp : Comp) (sp : UInt16) (unary : op.isUnary = true)
    (result : ∀ x y d, comp.eval d (sp - 1) y = op.apply x y)
    (placed : CodeAt m.rom m.pc (instructions addr (Code.unary comp))) (top : m.get 0 = sp) :
    Arrives (instructions addr (Code.unary comp)).length m
      { op.leave m sp (op.apply (m.get (sp - 2)) (m.get (sp - 1))) with
        pc := m.pc + (instructions addr (Code.unary comp)).length.toUInt16 } := by
  refine arrives_straight placed (fallsThrough_instructions addr (unary_straight comp)) ?_ rfl
  show _ = (op.leave m sp _).ram
  rw [run_unary res m comp sp top, ram_withRegs, ArithOp.leave, unary, if_pos rfl,
    result (m.get (sp - 2))]

/-- The code of an arithmetic command that is no comparison leaves what the VM's `apply` says. -/
theorem arrives_arithmetic (op : ArithOp) (plain : op.comparison? = none) (id : Nat) (sp : UInt16)
    (placed : CodeAt m.rom m.pc (instructions addr (Code.arithmetic id op)))
    (top : m.get 0 = sp) (low : 2 < sp.toNat) (high : sp.toNat ≤ 32768) :
    Arrives (instructions addr (Code.arithmetic id op)).length m
      { op.leave m sp (op.apply (m.get (sp - 2)) (m.get (sp - 1))) with
        pc := m.pc + (instructions addr (Code.arithmetic id op)).length.toUInt16 } := by
  rcases ArithOp.code_cases op id with ⟨jump, comparison, -⟩ | ⟨comp, -, binary, code, result⟩ |
    ⟨comp, -, unary, code, result⟩
  case inl => cases plain.symm.trans comparison
  case inr.inl =>
    rw [code] at placed ⊢
    exact arrives_binary res m op comp sp binary (fun x y => result x y _) placed top low high
  case inr.inr =>
    rw [code] at placed ⊢
    exact arrives_unary res m op comp sp unary (fun x y d => result x y d _) placed top

/-- The entry of a function with `k` locals pushes `k` zeros. -/
theorem arrives_define (name : String) (k : Nat) (sp : UInt16) (top : m.get 0 = sp)
    (stack : ∀ j < k, 16 ≤ sp.toNat + j ∧ sp.toNat + j ≤ 32767)
    (placed : CodeAt m.rom m.pc (instructions addr (Code.define name k))) :
    Arrives (instructions addr (Code.define name k)).length m
      { m.pushZeros sp k with pc := m.pc + (instructions addr (Code.define name k)).length.toUInt16 } := by
  -- the function's label takes no word
  have unlabelled : instructions addr (Code.define name k) =
      instructions addr (List.replicate k [Code.addr "SP", Code.assign Dest.M .incM,
        Code.assign Dest.A .decM, Code.assign Dest.M .zero]).flatten := rfl
  refine arrives_straight placed (fallsThrough_instructions addr (define_straight name k)) ?_ rfl
  rw [unlabelled]
  exact ram_zeros res m k sp top stack

end Commands

/-! ### Every simple command -/

/-- The code of every simple command the reader gives, run from its first word on a machine with
`SP = sp` whose stack words the command touches lie above the registers and below the screen,
runs each of its words once and comes to the word `vmStep` names with the RAM `vmStep` names:
the VM's own effect of the command. -/
theorem command_code_effect {addr : String → UInt16} (res : Resolution addr) {s : Scope}
    {line : String} {cmd : Command} (read : s.read line = .ok (some cmd)) (simple : cmd.Simple)
    (id : Nat) (m : Machine) (sp : UInt16)
    (placed : CodeAt m.rom m.pc (instructions addr (cmd.lower id))) (top : m.get 0 = sp)
    (stack : ∀ w ∈ cmd.stackWords sp.toNat, 16 ≤ w ∧ w ≤ 32767) :
    Arrives (instructions addr (cmd.lower id)).length m
      (cmd.vmStep addr (m.pc + (instructions addr (cmd.lower id)).length.toUInt16) m sp) := by
  rw [instructions_lower] at placed ⊢
  cases cmd with
  | arithmetic op =>
    -- every arithmetic command reads the top word, at `sp - 1`
    have bounds := stack (sp.toNat - 1) (by cases op <;> simp [Command.stackWords, ArithOp.isUnary])
    exact arrives_arithmetic res m op simple id sp placed top (by omega) (by omega)
  | memory access slot =>
    have admitted := read_admitted read
    cases access with
    | push =>
      exact arrives_straight placed (fallsThrough_instructions addr (push_straight slot))
        (ram_push res m slot admitted sp top) rfl
    | pop =>
      have bounds := stack (sp.toNat - 1) (by simp [Command.stackWords])
      exact arrives_straight placed (fallsThrough_instructions addr (pop_straight slot))
        (ram_pop res m slot admitted sp top (by omega) (by omega)) rfl
  | branch kind label =>
    cases kind with
    | label => exact ⟨by simp [steps, Command.vmStep, Command.body, instructions], rfl⟩
    | goto => exact arrives_goto res m label placed
    | ifGoto =>
      have bounds := stack (sp.toNat - 1) (by simp [Command.stackWords])
      exact arrives_ifGoto res m label sp placed top (top_apart (by omega) (by omega))
  | define name locals =>
    refine arrives_define res m name locals.toNat sp top (fun j below => ?_) placed
    exact stack (sp.toNat + j) (List.mem_range'_1.mpr ⟨by omega, by omega⟩)
  | call => exact simple.elim
  | ret => exact simple.elim

/-- `pop local 2` from ROM word 0, with `SP = 260` and `LCL = 300`. -/
def popLocalMachine : Machine :=
  (({ rom := ((instructions sampleAddr ((Command.memory .pop (.frame .locals 2)).lower 0)).map
      Inst.toWord).toArray } : Machine).set 1 300).set 0 260

theorem pop_local_effect :
    Resolution sampleAddr ∧
      (Scope.init "Main").read "pop local 2" = .ok (some (.memory .pop (.frame .locals 2))) ∧
      Arrives (instructions sampleAddr ((Command.memory .pop (.frame .locals 2)).lower 0)).length
        popLocalMachine
        ((Command.memory .pop (.frame .locals 2)).vmStep sampleAddr
          (popLocalMachine.pc + (instructions sampleAddr
            ((Command.memory .pop (.frame .locals 2)).lower 0)).length.toUInt16)
          popLocalMachine 260) := by
  have read : (Scope.init "Main").read "pop local 2" =
      .ok (some (.memory .pop (.frame .locals 2))) := rfl
  have placed : CodeAt popLocalMachine.rom popLocalMachine.pc
      (instructions sampleAddr ((Command.memory .pop (.frame .locals 2)).lower 0)) := by
    have words := codeAt_words []
      (instructions sampleAddr ((Command.memory .pop (.frame .locals 2)).lower 0)) [] (by decide)
    rw [List.nil_append, List.append_nil] at words
    exact words
  exact ⟨sampleAddr_resolution, read, command_code_effect sampleAddr_resolution read trivial 0
    popLocalMachine 260 placed (get_set_self _ _ _) (by decide)⟩

/-- `pop local 0` from ROM word 0 with `LCL = 0`, `SP = 257` and 5 on top of the stack: the slot
is `SP` itself. -/
def stackSlotMachine : Machine :=
  ((({ rom := ((instructions sampleAddr ((Command.memory .pop (.frame .locals 0)).lower 0)).map
      Inst.toWord).toArray } : Machine).set 1 0).set 0 257).set 256 5

/-- Popping into the slot that is `SP`: the code moves `SP` down to 256, then writes the popped
word into the slot, so `SP` ends as 5 and not as 256. -/
theorem pop_into_stack_pointer :
    (steps (instructions sampleAddr ((Command.memory .pop (.frame .locals 0)).lower 0)).length
      stackSlotMachine).get 0 = 5 := by
  have placed : CodeAt stackSlotMachine.rom stackSlotMachine.pc
      (instructions sampleAddr (Code.pop (.frame .locals 0))) := by
    have words := codeAt_words []
      (instructions sampleAddr ((Command.memory .pop (.frame .locals 0)).lower 0)) [] (by decide)
    rw [List.nil_append, List.append_nil, instructions_lower] at words
    exact words
  have top : stackSlotMachine.get 0 = 257 := by
    rw [stackSlotMachine, get_set_of_ne _ 256 0 _ (by decide), get_set_self]
  have lcl : stackSlotMachine.get 1 = 0 := by
    rw [stackSlotMachine, get_set_of_ne _ 256 1 _ (by decide), get_set_of_ne _ 0 1 _ (by decide),
      get_set_self]
  have popped : stackSlotMachine.get (257 - 1) = 5 := get_set_self _ _ _
  have ram := ram_pop sampleAddr_resolution stackSlotMachine (.frame .locals 0) (Nat.zero_le _) 257
    top (by decide) (by decide)
  rw [← steps_straight _ _ placed (fallsThrough_instructions _ (pop_straight _))] at ram
  rw [instructions_lower]
  show (steps (instructions sampleAddr (Code.pop (.frame .locals 0))).length
    stackSlotMachine).ram.get (slot 0) = 5
  have target : Slot.address sampleAddr stackSlotMachine (.frame .locals 0) = 0 := by
    simp [Slot.address, Base.pointer, lcl]
  rw [ram]
  show (Slot.popInto sampleAddr stackSlotMachine 257 (.frame .locals 0)).get 0 = 5
  simp only [Slot.popInto, target, get_set_self]
  exact popped

end Hack.Vm
