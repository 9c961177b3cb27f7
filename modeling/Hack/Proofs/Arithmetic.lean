import Hack.Proofs.CallingConvention
/-! The code of an arithmetic command on the machine: what it leaves on the stack, and the comparisons
that answer the wrong way when the difference overflows. -/

set_option autoImplicit false

namespace Hack

/-- The value of a word read in two's complement. -/
def signedValue (w : UInt16) : Int :=
  if w.toNat < 32768 then w.toNat else w.toNat - 65536

/-- The truth values of the VM: true is the word of all ones, `-1`. -/
def truth (b : Bool) : UInt16 :=
  if b then 0xFFFF else 0

namespace Jump

theorem taken_JEQ (w : UInt16) : JEQ.taken w = (w == 0) := by
  simp [taken, JEQ]

theorem taken_JGT (w : UInt16) : JGT.taken w = decide (0 < signedValue w) := by
  have bound := w.toNat_lt
  have nonzero : (w != 0) = decide (w.toNat ≠ 0) := by
    rw [Bool.eq_iff_iff]
    simp [← UInt16.toNat_inj]
  rw [Bool.eq_iff_iff]
  simp only [taken, JGT, isNegative, Bool.false_and, Bool.false_or, Bool.true_and, nonzero,
    UInt16.le_iff_toNat_le, UInt16.reduceToNat, signedValue]
  split <;> simp <;> omega

theorem taken_JLT (w : UInt16) : JLT.taken w = decide (signedValue w < 0) := by
  have bound := w.toNat_lt
  rw [Bool.eq_iff_iff]
  simp only [taken, JLT, isNegative, Bool.true_and, Bool.false_and, Bool.or_false,
    UInt16.le_iff_toNat_le, UInt16.reduceToNat, signedValue]
  split <;> simp <;> omega

end Jump

/-- Whether `x - y` leaves the range of sixteen-bit two's complement. -/
def SubOverflows (x y : UInt16) : Prop :=
  signedValue x - signedValue y < -32768 ∨ 32767 < signedValue x - signedValue y

instance (x y : UInt16) : Decidable (SubOverflows x y) :=
  inferInstanceAs (Decidable (_ ∨ _))

/-- The sixteen-bit difference of two words, read in two's complement, is their difference,
moved by `65536` into range when it overflows. -/
theorem signedValue_sub (x y : UInt16) :
    signedValue (x - y) =
      if 32767 < signedValue x - signedValue y then signedValue x - signedValue y - 65536
      else if signedValue x - signedValue y < -32768 then signedValue x - signedValue y + 65536
      else signedValue x - signedValue y := by
  have boundX := x.toNat_lt
  have boundY := y.toNat_lt
  simp only [signedValue]
  rw [UInt16.toNat_sub]
  split <;> split <;> split <;> split <;> (try split) <;> omega

theorem signedValue_bounds (w : UInt16) : -32768 ≤ signedValue w ∧ signedValue w ≤ 32767 := by
  have bound := w.toNat_lt
  simp only [signedValue]
  split <;> omega

theorem sub_eq_zero_iff {x y : UInt16} : x - y = 0 ↔ x = y := by
  constructor
  · intro zero
    have boundX := x.toNat_lt
    have boundY := y.toNat_lt
    have value := congrArg UInt16.toNat zero
    rw [UInt16.toNat_sub, UInt16.toNat_zero] at value
    apply UInt16.toNat_inj.mp
    omega
  · rintro rfl
    exact UInt16.sub_self x

@[simp] theorem sub_one_sub_one (w : UInt16) : w - 1 - 1 = w - 2 := by
  rw [UInt16.sub_eq_add_neg, UInt16.sub_eq_add_neg, UInt16.sub_eq_add_neg, UInt16.add_assoc]
  rfl

@[simp] theorem truth_inj {a b : Bool} : truth a = truth b ↔ a = b := by
  cases a <;> cases b <;> decide

/-- Two truth values that differ are each other's complement. -/
theorem truth_eq_complement {a b : Bool} (differ : truth a ≠ truth b) : truth a = ~~~(truth b) := by
  cases a <;> cases b
  case false.false | true.true => exact absurd rfl differ
  all_goals decide

end Hack

namespace Hack.Machine

variable (m : Machine)

@[simp] theorem ram_set (x v : UInt16) : (m.set x v).ram = m.ram.set (slot x) v (slot x).isLt := rfl

/-- A jump, taken or not, leaves the memory as it is. -/
theorem ram_runInst_branch (comp : Comp) (jump : Jump) :
    (m.runInst (.compute Dest.none comp jump)).ram = m.ram := by
  simp only [runInst, compute, Dest.none]
  split <;> rfl

theorem get_runInst_branch (comp : Comp) (jump : Jump) (x : UInt16) :
    (m.runInst (.compute Dest.none comp jump)).get x = m.get x := by
  simp only [Machine.get, ram_runInst_branch]

/-- A jump goes to A when its condition holds of the computed word, and to the next word
otherwise. -/
theorem pc_runInst_branch (comp : Comp) (jump : Jump) :
    (m.runInst (.compute Dest.none comp jump)).pc =
      if jump.taken (comp.eval m.d m.a (m.get m.a)) then m.a else m.pc + 1 := by
  simp only [runInst, compute, Dest.none]
  split <;> rfl

section Stack

variable {sp : UInt16} (low : 2 < sp.toNat) (high : sp.toNat ≤ 32768)
include low high

/-- The top word of a stack above the pointers is not `SP`. -/
theorem top_apart : (sp - 1).toNat % 32768 ≠ 0 := by
  simp only [UInt16.toNat_sub, UInt16.reduceToNat]
  omega

/-- Moving `SP` down leaves the word below the top as it was. -/
theorem get_popped_below : (m.set 0 (sp - 1)).get (sp - 2) = m.get (sp - 2) :=
  get_set_of_ne _ _ _ _ (by simp only [UInt16.toNat_sub, UInt16.reduceToNat]; omega)

end Stack

end Hack.Machine

namespace Hack.Vm

namespace ArithOp

/-- Whether an arithmetic command reads the top word only. -/
def isUnary : ArithOp → Bool
  | neg | not => true
  | add | sub | eq | gt | lt | and | or => false

/-- What an arithmetic command leaves in the VM, from the two top words `x` (below) and `y`: a
unary command reads `y` only, and a comparison compares the words read in two's complement. -/
def apply : ArithOp → UInt16 → UInt16 → UInt16
  | add, x, y => x + y
  | sub, x, y => x - y
  | neg, _, y => 0 - y
  | eq, x, y => truth (x == y)
  | gt, x, y => truth (decide (signedValue y < signedValue x))
  | lt, x, y => truth (decide (signedValue x < signedValue y))
  | and, x, y => x &&& y
  | or, x, y => x ||| y
  | not, _, y => ~~~y

/-- The jump the code of a comparison makes on the difference of the two top words. -/
def comparison? : ArithOp → Option Jump
  | eq => some Jump.JEQ
  | gt => some Jump.JGT
  | lt => some Jump.JLT
  | add | sub | neg | and | or | not => none

/-- What the generated code of an arithmetic command leaves: as `apply`, but a comparison jumps on
the sign of the sixteen-bit difference `x - y`. -/
def compute (op : ArithOp) (x y : UInt16) : UInt16 :=
  match op.comparison? with
  | some jump => truth (jump.taken (x - y))
  | none => op.apply x y

/-- The code decides every command as the VM does, but for a greater-than or less-than whose
difference overflows. -/
theorem compute_eq_apply_iff (op : ArithOp) (x y : UInt16) :
    op.compute x y = op.apply x y ↔ ¬ ((op = gt ∨ op = lt) ∧ SubOverflows x y) := by
  cases op
  case eq =>
    simp only [compute, comparison?, apply, truth_inj, Jump.taken_JEQ, reduceCtorEq, or_self,
      false_and, not_false_eq_true, iff_true]
    rw [Bool.eq_iff_iff, beq_iff_eq, beq_iff_eq]
    exact sub_eq_zero_iff
  case gt =>
    have boundX := signedValue_bounds x
    have boundY := signedValue_bounds y
    simp only [compute, comparison?, apply, truth_inj, Jump.taken_JGT, signedValue_sub,
      SubOverflows, true_or, true_and, decide_eq_decide]
    split <;> (try split) <;> omega
  case lt =>
    have boundX := signedValue_bounds x
    have boundY := signedValue_bounds y
    simp only [compute, comparison?, apply, truth_inj, Jump.taken_JLT, signedValue_sub,
      SubOverflows, or_true, true_and, decide_eq_decide]
    split <;> (try split) <;> omega
  all_goals simp [compute, comparison?]

/-- What the code leaves is the VM's answer, complemented for a greater-than or less-than whose
difference overflows. -/
theorem compute_eq_ite (op : ArithOp) (x y : UInt16) :
    op.compute x y =
      if (op = gt ∨ op = lt) ∧ SubOverflows x y then ~~~(op.apply x y) else op.apply x y := by
  split
  case isTrue overflow =>
    have differ : op.compute x y ≠ op.apply x y :=
      fun same => (compute_eq_apply_iff op x y).mp same overflow
    rcases overflow.1 with rfl | rfl
    all_goals
      simp only [compute, comparison?, apply] at differ ⊢
      exact truth_eq_complement differ
  case isFalse fine => exact (compute_eq_apply_iff op x y).mpr fine

/-- The machine after an arithmetic command leaves `v` on the stack whose top word is at `sp - 1`:
a unary command replaces the top word; any other pops a word, so `SP` goes down by one, and
replaces the new top. -/
def leave (op : ArithOp) (m : Machine) (sp v : UInt16) : Machine :=
  if op.isUnary then m.set (sp - 1) v else (m.set 0 (sp - 1)).set (sp - 2) v

/-- A command that is no comparison leaves on the machine what it leaves on the VM. -/
theorem compute_of_plain {op : ArithOp} (plain : op.comparison? = none) (x y : UInt16) :
    op.compute x y = op.apply x y := by
  rw [compute, plain]

/-- The code of an arithmetic command, by kind: a comparison's compares on its jump; any other
command's is a binary block, whose computation reads `y` from D and `x` from M, or a unary block,
whose computation reads `y` from M, and either computes what the VM leaves. -/
theorem code_cases (op : ArithOp) (id : Nat) :
    (∃ jump, op.comparison? = some jump ∧ op.isUnary = false ∧
      Code.arithmetic id op = Code.compare id jump) ∨
    (∃ comp, op.comparison? = none ∧ op.isUnary = false ∧
      Code.arithmetic id op = Code.binary comp ∧ ∀ x y a, comp.eval y a x = op.apply x y) ∨
    (∃ comp, op.comparison? = none ∧ op.isUnary = true ∧
      Code.arithmetic id op = Code.unary comp ∧ ∀ x y d a, comp.eval d a y = op.apply x y) := by
  cases op
  case add => exact .inr (.inl ⟨.addDM, rfl, rfl, rfl, fun x y _ => UInt16.add_comm y x⟩)
  case sub => exact .inr (.inl ⟨.subMD, rfl, rfl, rfl, fun _ _ _ => rfl⟩)
  case and => exact .inr (.inl ⟨.andDM, rfl, rfl, rfl, fun x y _ => UInt16.and_comm y x⟩)
  case or => exact .inr (.inl ⟨.orDM, rfl, rfl, rfl, fun x y _ => UInt16.or_comm y x⟩)
  case neg => exact .inr (.inr ⟨.negM, rfl, rfl, rfl, fun _ _ _ _ => rfl⟩)
  case not => exact .inr (.inr ⟨.notM, rfl, rfl, rfl, fun _ _ _ _ => rfl⟩)
  case eq => exact .inl ⟨.JEQ, rfl, rfl, rfl⟩
  case gt => exact .inl ⟨.JGT, rfl, rfl, rfl⟩
  case lt => exact .inl ⟨.JLT, rfl, rfl, rfl⟩

end ArithOp

open Machine

/-- Where the assembler puts the two labels of comparison `id` whose code starts at `start`. -/
structure CompareLabels (addr : String → UInt16) (id : Nat) (start : UInt16) : Prop where
  onTrue : addr ("__CMP" ++ toString id ++ "$TRUE") = start + 12
  done : addr ("__CMP" ++ toString id ++ "$END") = start + 15

/-- The words of a comparison: pop `y`, subtract it from `x` into D and jump on D to the true
branch; the false branch writes `0` and jumps over the true branch, which writes `-1`. -/
theorem instructions_compare (addr : String → UInt16) (id : Nat) (jump : Jump) :
    instructions addr (Code.compare id jump) =
      instructions addr (Code.popD ++ [Code.assign Dest.A .decA, Code.assign Dest.D .subMD,
        Code.addr ("__CMP" ++ toString id ++ "$TRUE")]) ++ [.compute Dest.none .d jump] ++
      (instructions addr (Code.unary .zero ++ [Code.addr ("__CMP" ++ toString id ++ "$END")]) ++
        [.compute Dest.none .zero Jump.JMP]) ++
      instructions addr (Code.unary .negOne) := rfl

/-- The code `code`, run from its first word at `m.pc`, reaches the word after it with the RAM of
`m'`. -/
def Reaches (addr : String → UInt16) (code : List Piece) (m m' : Machine) : Prop :=
  ∃ n, (steps n m).pc = m.pc + (instructions addr code).length.toUInt16 ∧ (steps n m).ram = m'.ram

section Blocks

variable {addr : String → UInt16} (res : Resolution addr) (m : Machine)
include res

/-- A binary command pops `y` into D and writes `comp` of `y` and the word below where that word
was. -/
theorem run_binary (comp : Comp) (sp : UInt16) (top : m.get 0 = sp) (low : 2 < sp.toNat)
    (high : sp.toNat ≤ 32768) :
    (instructions addr (Code.binary comp)).foldl runInst m =
      ((m.set 0 (sp - 1)).set (sp - 2) (comp.eval (m.get (sp - 1)) (sp - 2) (m.get (sp - 2)))).withRegs
        (sp - 2) (m.get (sp - 1)) (m.pc + 5) := by
  have split : Code.binary comp =
      Code.popD ++ [Code.assign Dest.A .decA, Code.assign Dest.M comp] := rfl
  rw [split, instructions_append, List.foldl_append, run_popD res m sp top (top_apart low high)]
  simp [instructions, Code.assign, Instr.resolve, runInst_assign, Dest.A, Dest.M, Comp.eval,
    get_popped_below m low high, sub_one_sub_one, UInt16.add_assoc]

/-- A unary command writes `comp` of the top word in its place. -/
theorem run_unary (comp : Comp) (sp : UInt16) (top : m.get 0 = sp) :
    (instructions addr (Code.unary comp)).foldl runInst m =
      (m.set (sp - 1) (comp.eval m.d (sp - 1) (m.get (sp - 1)))).withRegs (sp - 1) m.d
        (m.pc + 3) := by
  simp [instructions, Code.unary, Code.addr, Code.assign, Instr.resolve, runInst_load,
    runInst_assign, Dest.A, Dest.M, Comp.eval, res.sp, Inst.toWord_load, top, UInt16.add_assoc]

/-- The head of a comparison leaves `SP` down by one, `x - y` in D and the true branch in A. -/
theorem run_compareHead (id : Nat) (sp : UInt16) (top : m.get 0 = sp) (low : 2 < sp.toNat)
    (high : sp.toNat ≤ 32768) :
    (instructions addr (Code.popD ++ [Code.assign Dest.A .decA, Code.assign Dest.D .subMD,
        Code.addr ("__CMP" ++ toString id ++ "$TRUE")])).foldl runInst m =
      (m.set 0 (sp - 1)).withRegs (addr ("__CMP" ++ toString id ++ "$TRUE"))
        (m.get (sp - 2) - m.get (sp - 1)) (m.pc + 6) := by
  rw [instructions_append, List.foldl_append, run_popD res m sp top (top_apart low high)]
  simp [instructions, Code.addr, Code.assign, Instr.resolve, runInst_load, runInst_assign,
    Dest.A, Dest.D, Comp.eval, res.fits, Inst.toWord_load, get_popped_below m low high,
    sub_one_sub_one, UInt16.add_assoc]

/-- A comparison, run from its first word with its labels where the assembler puts them, reaches
the word after its code with `SP` down by one and the truth of the jump's condition on `x - y` in
place of `x`: ten steps through the true branch, twelve through the false one. -/
theorem run_compare (id : Nat) (jump : Jump) (sp : UInt16)
    (placed : CodeAt m.rom m.pc (instructions addr (Code.compare id jump)))
    (labels : CompareLabels addr id m.pc) (top : m.get 0 = sp) (low : 2 < sp.toNat)
    (high : sp.toNat ≤ 32768) :
    Reaches addr (Code.compare id jump) m ((m.set 0 (sp - 1)).set (sp - 2)
      (truth (jump.taken (m.get (sp - 2) - m.get (sp - 1))))) := by
  have compareLength : (instructions addr (Code.compare id jump)).length = 15 := rfl
  rw [Reaches, compareLength]
  rw [instructions_compare] at placed
  obtain ⟨placedFront, placedTrue⟩ := (codeAt_append _ _ _ _).mp placed
  obtain ⟨placedHead, placedFalse⟩ := (codeAt_append _ _ _ _).mp placedFront
  -- the head and the conditional jump: seven steps
  have head := steps_straight_then _ _ m placedHead (by
    simp [instructions, Code.popD, Code.addr, Code.assign, Instr.resolve, Inst.FallsThrough])
  rw [run_compareHead res m id sp top low high] at head
  generalize branched : ((m.set 0 (sp - 1)).withRegs _ _ (m.pc + 6)).runInst _ = m₁ at head
  have ram₁ : m₁.ram = (m.set 0 (sp - 1)).ram := by
    rw [← branched, ram_runInst_branch, ram_withRegs]
  have top₁ : m₁.get 0 = sp - 1 := by
    rw [← branched, get_runInst_branch, get_withRegs, get_set_self]
  have pc₁ := pc_runInst_branch ((m.set 0 (sp - 1)).withRegs
    (addr ("__CMP" ++ toString id ++ "$TRUE")) (m.get (sp - 2) - m.get (sp - 1)) (m.pc + 6)) .d jump
  rw [branched] at pc₁
  simp only [a_withRegs, d_withRegs, pc_withRegs, Comp.eval, labels.onTrue] at pc₁
  have rom₁ : m₁.rom = m.rom := by
    rw [← branched, rom_runInst, rom_withRegs, rom_set]
  have headLength : (instructions addr (Code.popD ++ [Code.assign Dest.A .decA,
      Code.assign Dest.D .subMD, Code.addr ("__CMP" ++ toString id ++ "$TRUE")])).length = 6 := rfl
  rw [headLength] at head
  simp only [List.length_append, headLength, List.length_singleton] at placedFalse placedTrue
  have unaryLength : ∀ comp, (instructions addr (Code.unary comp)).length = 3 := fun _ => rfl
  -- the truth of the condition on `x - y` decides which of the two writes runs
  cases taken : jump.taken (m.get (sp - 2) - m.get (sp - 1))
  case true =>
    rw [taken, if_pos rfl] at pc₁
    have placed₁ : CodeAt m₁.rom m₁.pc (instructions addr (Code.unary .negOne)) := by
      rw [rom₁, pc₁]
      exact placedTrue
    have rest := steps_straight _ m₁ placed₁ (by
      simp [instructions, Code.unary, Code.addr, Code.assign, Instr.resolve, Inst.FallsThrough])
    rw [run_unary res m₁ .negOne (sp - 1) top₁, unaryLength] at rest
    refine ⟨6 + 1 + 3, ?_, ?_⟩
    · rw [steps_add, head, rest, pc_withRegs, pc₁, UInt16.add_assoc]
      rfl
    · rw [steps_add, head, rest]
      simp only [ram_withRegs, ram_set, ram₁, sub_one_sub_one, Comp.eval, truth, if_true]
  case false =>
    rw [taken, if_neg Bool.false_ne_true] at pc₁
    have placed₁ : CodeAt m₁.rom m₁.pc
        (instructions addr (Code.unary .zero ++ [Code.addr ("__CMP" ++ toString id ++ "$END")]) ++
          [.compute Dest.none .zero Jump.JMP]) := by
      rw [rom₁, pc₁, UInt16.add_assoc]
      exact placedFalse
    have rest := steps_straight_then _ _ m₁ placed₁ (by
      simp [instructions, Code.unary, Code.addr, Code.assign, Instr.resolve, Inst.FallsThrough])
    have written : (instructions addr (Code.unary .zero ++
        [Code.addr ("__CMP" ++ toString id ++ "$END")])).foldl runInst m₁ =
        (m₁.set (sp - 1 - 1) 0).withRegs (addr ("__CMP" ++ toString id ++ "$END")) m₁.d
          (m₁.pc + 3 + 1) := by
      rw [instructions_append, List.foldl_append, run_unary res m₁ .zero (sp - 1) top₁]
      simp [instructions, Code.addr, Instr.resolve, runInst_load, Inst.toWord_load, res.fits,
        Comp.eval]
    have falseLength : (instructions addr (Code.unary .zero ++
        [Code.addr ("__CMP" ++ toString id ++ "$END")])).length = 4 := rfl
    rw [written, falseLength] at rest
    refine ⟨6 + 1 + (4 + 1), ?_, ?_⟩
    · rw [steps_add, head, rest, pc_runInst_goto, a_withRegs, labels.done]
      rfl
    · rw [steps_add, head, rest, ram_runInst_branch]
      simp only [ram_withRegs, ram_set, ram₁, sub_one_sub_one, truth, Bool.false_eq_true, if_false]

/-- The code of a binary command that computes `op` reaches the word after it with `op`'s result in
place of the two top words. -/
theorem reaches_binary (op : ArithOp) (comp : Comp) (sp : UInt16) (binary : op.isUnary = false)
    (result : ∀ x y, comp.eval y (sp - 2) x = op.compute x y)
    (placed : CodeAt m.rom m.pc (instructions addr (Code.binary comp)))
    (top : m.get 0 = sp) (low : 2 < sp.toNat) (high : sp.toNat ≤ 32768) :
    Reaches addr (Code.binary comp) m
      (op.leave m sp (op.compute (m.get (sp - 2)) (m.get (sp - 1)))) := by
  have straight := steps_straight _ m placed (by
    simp [instructions, Code.binary, Code.addr, Code.assign, Instr.resolve, Inst.FallsThrough])
  rw [run_binary res m comp sp top low high] at straight
  refine ⟨(instructions addr (Code.binary comp)).length, ?_, ?_⟩
  · rw [straight, pc_withRegs]
    rfl
  · rw [straight, ram_withRegs, ArithOp.leave, binary, if_neg Bool.false_ne_true, result]

/-- The code of a unary command that computes `op` reaches the word after it with `op`'s result in
place of the top word. -/
theorem reaches_unary (op : ArithOp) (comp : Comp) (sp : UInt16) (unary : op.isUnary = true)
    (result : ∀ x y d, comp.eval d (sp - 1) y = op.compute x y)
    (placed : CodeAt m.rom m.pc (instructions addr (Code.unary comp)))
    (top : m.get 0 = sp) :
    Reaches addr (Code.unary comp) m
      (op.leave m sp (op.compute (m.get (sp - 2)) (m.get (sp - 1)))) := by
  have straight := steps_straight _ m placed (by
    simp [instructions, Code.unary, Code.addr, Code.assign, Instr.resolve, Inst.FallsThrough])
  rw [run_unary res m comp sp top] at straight
  refine ⟨(instructions addr (Code.unary comp)).length, ?_, ?_⟩
  · rw [straight, pc_withRegs]
    rfl
  · rw [straight, ram_withRegs, ArithOp.leave, unary, if_pos rfl, result (m.get (sp - 2))]

/-- The code of a comparison that computes `op` reaches the word after it with `op`'s result in
place of the two top words. -/
theorem reaches_comparison (op : ArithOp) (id : Nat) (jump : Jump) (sp : UInt16)
    (comparison : op.comparison? = some jump) (binary : op.isUnary = false)
    (placed : CodeAt m.rom m.pc (instructions addr (Code.compare id jump)))
    (labels : CompareLabels addr id m.pc) (top : m.get 0 = sp) (low : 2 < sp.toNat)
    (high : sp.toNat ≤ 32768) :
    Reaches addr (Code.compare id jump) m
      (op.leave m sp (op.compute (m.get (sp - 2)) (m.get (sp - 1)))) := by
  have computed : op.compute (m.get (sp - 2)) (m.get (sp - 1)) =
      truth (jump.taken (m.get (sp - 2) - m.get (sp - 1))) := by
    rw [ArithOp.compute, comparison]
  rw [computed, ArithOp.leave, binary, if_neg Bool.false_ne_true]
  exact run_compare res m id jump sp placed labels top low high

end Blocks

/-- The code of an arithmetic command, run from its first word with `SP = sp` above the pointers
and a comparison's labels where the assembler puts them, reaches the word after its code with the
RAM as `leave` says of what `compute` gives of the two top words. -/
theorem arithmetic_step {addr : String → UInt16} (res : Resolution addr) (m : Machine)
    (op : ArithOp) (id : Nat) (sp : UInt16)
    (placed : CodeAt m.rom m.pc (instructions addr (Code.arithmetic id op)))
    (labels : op.comparison?.isSome → CompareLabels addr id m.pc)
    (top : m.get 0 = sp) (low : 2 < sp.toNat) (high : sp.toNat ≤ 32767) :
    Reaches addr (Code.arithmetic id op) m
      (op.leave m sp (op.compute (m.get (sp - 2)) (m.get (sp - 1)))) := by
  replace high : sp.toNat ≤ 32768 := Nat.le_succ_of_le high
  rcases ArithOp.code_cases op id with ⟨jump, comparison, binary, code⟩ |
    ⟨comp, plain, binary, code, result⟩ | ⟨comp, plain, unary, code, result⟩
  case inl =>
    rw [code] at placed ⊢
    have placedLabels := labels (by rw [comparison]; rfl)
    exact reaches_comparison res m op id jump sp comparison binary placed placedLabels top low high
  case inr.inl =>
    rw [code] at placed ⊢
    have computed x y : comp.eval y (sp - 2) x = op.compute x y := by
      rw [ArithOp.compute_of_plain plain, result]
    exact reaches_binary res m op comp sp binary computed placed top low high
  case inr.inr =>
    rw [code] at placed ⊢
    have computed x y d : comp.eval d (sp - 1) y = op.compute x y := by
      rw [ArithOp.compute_of_plain plain, result]
    exact reaches_unary res m op comp sp unary computed placed top

/-- An arithmetic command on the machine. Its code, run from its first word with `x` below `y` on
top of the stack, reaches the word after it with the RAM the command leaves by `compute`; and
`compute` is the VM's own command, `x + y`, `x - y`, `-y`, the two's complement comparisons with
`-1` for true and so on, except for a greater-than or less-than whose difference `x - y` leaves
the sixteen-bit range: there the code tests the sign of the wrapped difference and leaves the
opposite truth value. -/
theorem arithmetic_simulation {addr : String → UInt16} (res : Resolution addr) (m : Machine)
    (op : ArithOp) (id : Nat) (sp : UInt16)
    (placed : CodeAt m.rom m.pc (instructions addr (Code.arithmetic id op)))
    (labels : op.comparison?.isSome → CompareLabels addr id m.pc)
    (top : m.get 0 = sp) (low : 2 < sp.toNat) (high : sp.toNat ≤ 32767) :
    Reaches addr (Code.arithmetic id op) m
        (op.leave m sp (op.compute (m.get (sp - 2)) (m.get (sp - 1)))) ∧
      (op.compute (m.get (sp - 2)) (m.get (sp - 1)) = op.apply (m.get (sp - 2)) (m.get (sp - 1)) ↔
        ¬ ((op = .gt ∨ op = .lt) ∧ SubOverflows (m.get (sp - 2)) (m.get (sp - 1)))) :=
  ⟨arithmetic_step res m op id sp placed labels top low high, ArithOp.compute_eq_apply_iff op _ _⟩

/-- A resolution that keeps the predefined names and puts the labels of comparison `0`, whose code
starts at word 0, at words 12 and 15. -/
def compareAddr (name : String) : UInt16 :=
  match List.lookup name predefined with
  | some a => a
  | none => if name = "__CMP0$TRUE" then 12 else 15

/-- The code of `gt` from ROM word 0, with `32767` below `-1` on a stack whose `SP` is `258`. -/
def compareMachine : Machine :=
  ((({ rom := ((instructions compareAddr (Code.arithmetic 0 .gt)).map Inst.toWord).toArray } :
    Machine).set 0 258).set 256 32767).set 257 65535

/-- `32767 gt -1`: the difference overflows, and the code leaves false where the VM leaves true. -/
theorem arithmetic_simulation_overflow :
    Reaches compareAddr (Code.arithmetic 0 .gt) compareMachine
        (ArithOp.gt.leave compareMachine 258 0) ∧
      ArithOp.gt.apply 32767 65535 = truth true := by
  have resolves : Resolution compareAddr := by
    refine Resolution.of_lookup _ (fun name a found => by simp [compareAddr, found]) ?_
    intro name missing
    simp only [compareAddr, missing]
    split <;> decide
  have placed : CodeAt compareMachine.rom compareMachine.pc
      (instructions compareAddr (Code.arithmetic 0 .gt)) := by
    have words := codeAt_words [] (instructions compareAddr (Code.arithmetic 0 .gt)) [] (by decide)
    rw [List.nil_append, List.append_nil] at words
    exact words
  have labels : CompareLabels compareAddr 0 compareMachine.pc := ⟨by decide, by decide⟩
  have top : compareMachine.get 0 = 258 := by
    rw [compareMachine, get_set_of_ne _ 257 0 _ (by decide), get_set_of_ne _ 256 0 _ (by decide),
      get_set_self]
  have x : compareMachine.get (258 - 2) = 32767 := by
    rw [compareMachine, get_set_of_ne _ 257 _ _ (by decide)]
    exact get_set_self _ _ _
  have y : compareMachine.get (258 - 1) = 65535 := get_set_self _ _ _
  have run := arithmetic_simulation resolves compareMachine .gt 0 258 placed (fun _ => labels) top
    (by decide) (by decide)
  have computed : ArithOp.gt.compute 32767 65535 = 0 := by decide
  rw [x, y, computed] at run
  exact ⟨run.1, by decide⟩

/-- A comparison on the machine. Its code, run from its first word with `x` below `y` on top of the
stack and its two labels where the assembler puts them, arrives at the word its `END` label names
with `SP` down by one and every other word as it was, but for `x`'s, which holds the VM's answer:
true (`-1`) when `x` is equal to, greater than or less than `y`, read in two's complement, and
false (`0`) otherwise. A greater-than or less-than whose difference `x - y` overflows leaves the
opposite answer. -/
theorem comparison_result {addr : String → UInt16} (res : Resolution addr) (m : Machine)
    (op : ArithOp) (id : Nat) (sp : UInt16) (comparison : op = .eq ∨ op = .gt ∨ op = .lt)
    (placed : CodeAt m.rom m.pc (instructions addr (Code.arithmetic id op)))
    (labels : CompareLabels addr id m.pc) (top : m.get 0 = sp) (low : 2 < sp.toNat)
    (high : sp.toNat ≤ 32767) :
    ∃ n, (steps n m).pc = addr ("__CMP" ++ toString id ++ "$END") ∧
      (steps n m).ram = ((m.set 0 (sp - 1)).set (sp - 2)
        (if (op = .gt ∨ op = .lt) ∧ SubOverflows (m.get (sp - 2)) (m.get (sp - 1))
          then ~~~(op.apply (m.get (sp - 2)) (m.get (sp - 1)))
          else op.apply (m.get (sp - 2)) (m.get (sp - 1)))).ram := by
  obtain ⟨n, pc, ram⟩ := arithmetic_step res m op id sp placed (fun _ => labels) top low high
  have length : (instructions addr (Code.arithmetic id op)).length = 15 := by
    rcases comparison with rfl | rfl | rfl <;> rfl
  have binary : op.isUnary = false := by
    rcases comparison with rfl | rfl | rfl <;> rfl
  refine ⟨n, ?_, ?_⟩
  · rw [pc, length, labels.done]
    rfl
  · rw [ram, ArithOp.leave, binary, if_neg Bool.false_ne_true, ArithOp.compute_eq_ite]

theorem compareAddr_resolution : Resolution compareAddr := by
  refine Resolution.of_lookup _ (fun name a found => by simp [compareAddr, found]) ?_
  intro name missing
  simp only [compareAddr, missing]
  split <;> decide

theorem compareMachine_placed :
    CodeAt compareMachine.rom compareMachine.pc (instructions compareAddr (Code.arithmetic 0 .gt)) := by
  have words := codeAt_words [] (instructions compareAddr (Code.arithmetic 0 .gt)) [] (by decide)
  rw [List.nil_append, List.append_nil] at words
  exact words

theorem compareMachine_sp : compareMachine.get 0 = 258 := by
  rw [compareMachine, get_set_of_ne _ 257 0 _ (by decide), get_set_of_ne _ 256 0 _ (by decide),
    get_set_self]

/-- `32767 gt -1` on the machine: the difference overflows, and the comparison leaves false at
RAM word 256 where the VM leaves true. -/
theorem comparison_result_overflow :
    ∃ n, (steps n compareMachine).pc = 15 ∧
      (steps n compareMachine).ram = ((compareMachine.set 0 257).set 256 0).ram := by
  have x : compareMachine.get (258 - 2) = 32767 := by
    rw [compareMachine, get_set_of_ne _ 257 _ _ (by decide)]
    exact get_set_self _ _ _
  have y : compareMachine.get (258 - 1) = 65535 := get_set_self _ _ _
  have result := comparison_result compareAddr_resolution compareMachine .gt 0 258
    (.inr (.inl rfl)) compareMachine_placed ⟨by decide, by decide⟩ compareMachine_sp (by decide)
    (by decide)
  rw [x, y] at result
  exact result

end Hack.Vm
