import Hack.Machine.State
import Hack.Proofs.Words
/-! Running code on the machine: a step runs the instruction its word encodes, straight code runs as a
fold, and a block ending in a jump as that fold and the jump. -/

set_option autoImplicit false

namespace Hack

/-- An instruction that always goes on to the next word: a load, or a compute that never jumps. -/
def Inst.FallsThrough : Inst → Prop
  | .load _ => True
  | .compute _ _ jump => jump = Jump.none

namespace Machine

/-! ### Steps -/

/-- One step of the machine, whatever its state. -/
def step (m : Machine) : Machine := m.exec.1

/-- `n` steps of the machine. -/
def steps : Nat → Machine → Machine
  | 0, m => m
  | n + 1, m => steps n m.step

theorem steps_add (a b : Nat) (m : Machine) : steps (a + b) m = steps b (steps a m) := by
  induction a generalizing m with
  | zero => rw [Nat.zero_add]; rfl
  | succ a ih =>
    rw [Nat.add_right_comm]
    exact ih m.step

/-- What the machine does with an instruction at its program counter. -/
def runInst (m : Machine) : Inst → Machine
  | .load v => { m with a := (Inst.load v).toWord, pc := m.pc + 1 }
  | .compute dest comp jump => m.compute m.pc dest comp jump

/-- A step runs the instruction whose word is at the program counter. -/
theorem step_of_fetch (m : Machine) (i : Inst) (fetch : m.rom[m.pc.toNat]? = some i.toWord) :
    m.step = m.runInst i := by
  cases i with
  | load v => simp [step, exec, fetch, Inst.ofWord?_toWord_load, runInst]
  | compute dest comp jump => simp [step, exec, fetch, Inst.ofWord?_toWord_compute, runInst]

@[simp] theorem rom_compute (m : Machine) (pc : UInt16) (dest : Dest) (comp : Comp) (jump : Jump) :
    (m.compute pc dest comp jump).rom = m.rom := by
  simp only [compute]
  split <;> split <;> split <;> split <;> rfl

@[simp] theorem rom_runInst (m : Machine) (i : Inst) : (m.runInst i).rom = m.rom := by
  cases i with
  | load v => rfl
  | compute dest comp jump => exact rom_compute m m.pc dest comp jump

/-- The program never changes. -/
@[simp] theorem rom_steps (n : Nat) (m : Machine) : (steps n m).rom = m.rom := by
  induction n generalizing m with
  | zero => rfl
  | succ n ih =>
    have stepped : m.step.rom = m.rom := by
      simp only [step, exec]
      split
      · rfl
      · split <;> simp
    simp only [steps, ih, stepped]

/-! ### Code in ROM -/

/-- The ROM holds the words of some instructions from an address on. -/
def CodeAt (rom : Array UInt16) (start : UInt16) : List Inst → Prop
  | [] => True
  | i :: rest => rom[start.toNat]? = some i.toWord ∧ CodeAt rom (start + 1) rest

theorem codeAt_append (rom : Array UInt16) (start : UInt16) (xs ys : List Inst) :
    CodeAt rom start (xs ++ ys) ↔
      CodeAt rom start xs ∧ CodeAt rom (start + xs.length.toUInt16) ys := by
  induction xs generalizing start with
  | nil => simp [CodeAt]
  | cons i rest ih =>
    have shift : start + 1 + rest.length.toUInt16 = start + (rest.length + 1).toUInt16 := by
      apply UInt16.toNat_inj.mp
      simp only [UInt16.toNat_add, Nat.toUInt16_eq, UInt16.toNat_ofNat', UInt16.reduceToNat]
      omega
    simp [CodeAt, ih, shift, and_assoc]

/-- The words of a program hold each of its pieces at the piece's own offset. -/
theorem codeAt_words (before code after : List Inst)
    (fits : before.length + code.length < 65536) :
    CodeAt ((before ++ code ++ after).map Inst.toWord).toArray before.length.toUInt16 code := by
  induction code generalizing before with
  | nil => trivial
  | cons i rest ih =>
    have offset : before.length.toUInt16.toNat = before.length := by
      simp only [Nat.toUInt16_eq, UInt16.toNat_ofNat']
      simp only [List.length_cons] at fits
      omega
    have next : before.length.toUInt16 + 1 = (before ++ [i]).length.toUInt16 := by
      simp
    have room : (before ++ [i]).length + rest.length < 65536 := by
      simp only [List.length_append, List.length_cons, List.length_nil] at fits ⊢
      omega
    refine ⟨?_, ?_⟩
    · simp [offset]
    · rw [next]
      simpa [List.append_assoc] using ih (before ++ [i]) room

/-! ### Registers and memory -/

/-- The machine with new registers and the same memory, ROM and halt flag. -/
def withRegs (m : Machine) (a d pc : UInt16) : Machine := { m with a, d, pc }

section Algebra

variable (m : Machine) (a d pc a' d' pc' x y v : UInt16)

@[simp] theorem a_withRegs : (m.withRegs a d pc).a = a := rfl
@[simp] theorem d_withRegs : (m.withRegs a d pc).d = d := rfl
@[simp] theorem pc_withRegs : (m.withRegs a d pc).pc = pc := rfl
@[simp] theorem rom_withRegs : (m.withRegs a d pc).rom = m.rom := rfl
@[simp] theorem ram_withRegs : (m.withRegs a d pc).ram = m.ram := rfl
@[simp] theorem get_withRegs : (m.withRegs a d pc).get x = m.get x := rfl
@[simp] theorem set_withRegs : (m.withRegs a d pc).set x v = (m.set x v).withRegs a d pc := rfl
@[simp] theorem withRegs_withRegs :
    (m.withRegs a d pc).withRegs a' d' pc' = m.withRegs a' d' pc' := rfl
@[simp] theorem rom_set : (m.set x v).rom = m.rom := rfl

@[simp] theorem get_set_self : (m.set x v).get x = v :=
  Vector.getElem_set_self (slot x).isLt

/-- A write leaves every word of another RAM slot as it was. -/
theorem get_set_of_ne (apart : x.toNat % 32768 ≠ y.toNat % 32768) :
    (m.set x v).get y = m.get y := by
  have slots : slot x ≠ slot y := by
    intro same
    exact apart (congrArg Fin.val same)
  exact Vector.getElem_set_ne (slot x).isLt (slot y).isLt (Fin.val_ne_of_ne slots)

end Algebra

/-! ### One instruction -/

section Instructions

variable (m : Machine)

theorem runInst_load (v : UInt16) :
    m.runInst (.load v) = m.withRegs (Inst.load v).toWord m.d (m.pc + 1) := rfl

/-- A compute instruction that does not jump writes its output to M, then A, then D, with M at
the old A. -/
theorem runInst_assign (dest : Dest) (comp : Comp) :
    m.runInst (.compute dest comp Jump.none) =
      let out := comp.eval m.d m.a (m.get m.a)
      (if dest.m then m.set m.a out else m).withRegs (if dest.a then out else m.a)
        (if dest.d then out else m.d) (m.pc + 1) := by
  obtain ⟨a, d, mem⟩ := dest
  cases a <;> cases d <;> cases mem <;> rfl

theorem pc_runInst (i : Inst) (falls : i.FallsThrough) : (m.runInst i).pc = m.pc + 1 := by
  cases i with
  | load v => rfl
  | compute dest comp jump =>
    simp only [Inst.FallsThrough] at falls
    subst falls
    simp [runInst, compute, Jump.taken, Jump.none]

theorem taken_JMP (out : UInt16) : Jump.JMP.taken out = true := by
  cases negative : Jump.isNegative out <;> by_cases zero : out = 0 <;>
    simp [Jump.taken, Jump.JMP, negative, zero]

/-- An unconditional jump goes to A and leaves the memory as it is. -/
theorem pc_runInst_goto (comp : Comp) :
    (m.runInst (.compute Dest.none comp Jump.JMP)).pc = m.a := by
  simp [runInst, compute, Dest.none, taken_JMP]

theorem get_runInst_goto (comp : Comp) (x : UInt16) :
    (m.runInst (.compute Dest.none comp Jump.JMP)).get x = m.get x := by
  simp [runInst, compute, Dest.none, taken_JMP]
  rfl

end Instructions

/-! ### Runs of code -/

@[simp] theorem rom_foldl_runInst (code : List Inst) (m : Machine) :
    (code.foldl runInst m).rom = m.rom := by
  induction code generalizing m with
  | nil => rfl
  | cons i rest ih => simp [ih]

theorem pc_foldl_runInst (code : List Inst) (m : Machine)
    (straight : ∀ i ∈ code, i.FallsThrough) :
    (code.foldl runInst m).pc = m.pc + code.length.toUInt16 := by
  induction code generalizing m with
  | nil => simp
  | cons i rest ih =>
    simp only [List.foldl_cons, List.length_cons]
    rw [ih _ (fun j member => straight j (by simp [member])),
      pc_runInst m i (straight i (by simp))]
    apply UInt16.toNat_inj.mp
    simp only [UInt16.toNat_add, Nat.toUInt16_eq, UInt16.toNat_ofNat', UInt16.reduceToNat]
    omega

/-- Code that never jumps runs word after word: as many steps as it has instructions run them in
order. -/
theorem steps_straight (code : List Inst) (m : Machine) (placed : CodeAt m.rom m.pc code)
    (straight : ∀ i ∈ code, i.FallsThrough) : steps code.length m = code.foldl runInst m := by
  induction code generalizing m with
  | nil => rfl
  | cons i rest ih =>
    obtain ⟨fetch, placedRest⟩ := placed
    have falls := straight i (by simp)
    simp only [List.length_cons, steps, List.foldl_cons, step_of_fetch m i fetch]
    apply ih
    · rw [rom_runInst, pc_runInst m i falls]
      exact placedRest
    · intro j member
      exact straight j (by simp [member])

/-- Code that runs straight and ends in one more instruction, a jump say: its steps apply the
straight part in order, then the last instruction. -/
theorem steps_straight_then (code : List Inst) (last : Inst) (m : Machine)
    (placed : CodeAt m.rom m.pc (code ++ [last])) (straight : ∀ i ∈ code, i.FallsThrough) :
    steps (code.length + 1) m = (code.foldl runInst m).runInst last := by
  obtain ⟨front, back⟩ := (codeAt_append _ _ _ _).mp placed
  rw [steps_add, steps_straight code m front straight]
  have fetch : (code.foldl runInst m).rom[(code.foldl runInst m).pc.toNat]? =
      some last.toWord := by
    rw [rom_foldl_runInst, pc_foldl_runInst code m straight]
    exact back.1
  exact step_of_fetch _ last fetch

end Machine

end Hack
