import Hack.Machine.Rom
import Hack.Proofs.Execution
import Hack.Proofs.Decoding
/-! Halt detection on the `@n` `0;JMP` idiom, against the plain machine without its halted flag. -/

set_option autoImplicit false

namespace Hack

theorem Dest.isNull_eq_false_iff (dest : Dest) :
    dest.isNull = false ↔ dest.a = true ∨ dest.d = true ∨ dest.m = true := by
  obtain ⟨a, d, m⟩ := dest
  cases a <;> cases d <;> cases m <;> decide

namespace Machine

/-- The plain machine cannot tell the two states apart: the same RAM, A, D and program counter. -/
def PlainEq (m m' : Machine) : Prop :=
  m.ram = m'.ram ∧ m.a = m'.a ∧ m.d = m'.d ∧ m.pc = m'.pc

/-! ### What a compute instruction writes

M, A and D as its destination says, with M at the old A; the program counter at the old A on a
taken jump; and the halted flag, the one thing halt detection touches. -/

section Compute

variable (m : Machine) (pc : UInt16) (dest : Dest) (comp : Comp) (jump : Jump)

/-- A compute step as the writes of its output, then the program counter, then the flag. -/
theorem compute_eq : m.compute pc dest comp jump =
    { (if dest.m then m.set m.a (comp.eval m.d m.a (m.get m.a)) else m).withRegs
        (if dest.a then comp.eval m.d m.a (m.get m.a) else m.a)
        (if dest.d then comp.eval m.d m.a (m.get m.a) else m.d)
        (if jump.taken (comp.eval m.d m.a (m.get m.a)) then m.a else pc + 1) with
      halted := if jump.taken (comp.eval m.d m.a (m.get m.a)) then m.isSelfLoop pc m.a
        else m.halted } := by
  obtain ⟨a, d, mem⟩ := dest
  simp only [compute]
  cases jump.taken (comp.eval m.d m.a (m.get m.a)) <;> cases a <;> cases d <;> cases mem <;> rfl

@[simp] theorem ram_compute : (m.compute pc dest comp jump).ram =
    if dest.m then (m.set m.a (comp.eval m.d m.a (m.get m.a))).ram else m.ram := by
  rw [compute_eq]
  split <;> rfl

@[simp] theorem a_compute : (m.compute pc dest comp jump).a =
    if dest.a then comp.eval m.d m.a (m.get m.a) else m.a := by
  rw [compute_eq]
  rfl

@[simp] theorem d_compute : (m.compute pc dest comp jump).d =
    if dest.d then comp.eval m.d m.a (m.get m.a) else m.d := by
  rw [compute_eq]
  rfl

@[simp] theorem pc_compute : (m.compute pc dest comp jump).pc =
    if jump.taken (comp.eval m.d m.a (m.get m.a)) then m.a else pc + 1 := by
  rw [compute_eq]
  rfl

@[simp] theorem halted_compute : (m.compute pc dest comp jump).halted =
    if jump.taken (comp.eval m.d m.a (m.get m.a)) then m.isSelfLoop pc m.a else m.halted := by
  rw [compute_eq]

end Compute

theorem isSelfLoop_iff (m : Machine) (pc target : UInt16) :
    m.isSelfLoop pc target = true ↔
      0 < pc ∧ target = pc - 1 ∧ m.rom[target.toNat]? = some (Inst.load target).toWord := by
  simp [isSelfLoop, and_assoc]

theorem set_ram_eq_iff (m : Machine) (x v : UInt16) : (m.set x v).ram = m.ram ↔ m.get x = v := by
  constructor
  · intro same
    rw [← get_set_self m x v]
    exact congrArg (fun ram => ram.get (slot x)) same.symm
  · rintro rfl
    exact Vector.set_getElem_self (slot x).isLt

/-! ### A step that sets the halted flag through a taken jump -/

/-- A step that sets the halted flag through a taken jump: the word at the program counter is a
compute instruction whose jump is taken, back to the word before it, which loads its own
address. -/
structure LoopJump (m : Machine) (dest : Dest) (comp : Comp) (jump : Jump) : Prop where
  decoded : ∃ w, m.rom[m.pc.toNat]? = some w ∧ Inst.ofWord? w = some (.compute dest comp jump)
  taken : jump.taken (comp.eval m.d m.a (m.get m.a)) = true
  selfLoop : m.isSelfLoop m.pc m.a = true

namespace LoopJump

variable {m : Machine} {dest : Dest} {comp : Comp} {jump : Jump}

theorem fetch (flagged : m.LoopJump dest comp jump) :
    m.rom[m.pc.toNat]? = some (Inst.compute dest comp jump).toWord := by
  obtain ⟨w, fetched, decoded⟩ := flagged.decoded
  rw [fetched, Inst.toWord_of_ofWord? decoded]

theorem step_eq (flagged : m.LoopJump dest comp jump) :
    m.step = m.compute m.pc dest comp jump :=
  step_of_fetch m _ flagged.fetch

theorem halted (flagged : m.LoopJump dest comp jump) : m.step.halted = true := by
  rw [flagged.step_eq, halted_compute, if_pos flagged.taken]
  exact flagged.selfLoop

theorem pc_step (flagged : m.LoopJump dest comp jump) : m.step.pc = m.a := by
  rw [flagged.step_eq, pc_compute, if_pos flagged.taken]

/-- The word before the jump loads the jump's target, and within the ROM that target is a
fifteen-bit address. -/
theorem target (flagged : m.LoopJump dest comp jump) :
    m.a + 1 = m.pc ∧ m.rom[m.a.toNat]? = some (Inst.load m.a).toWord ∧ m.a.toNat < 32768 := by
  obtain ⟨-, back, load⟩ := (isSelfLoop_iff m m.pc m.a).mp flagged.selfLoop
  have inside : m.a.toNat < m.rom.size := by
    rcases Nat.lt_or_ge m.a.toNat m.rom.size with inside | outside
    · exact inside
    · rw [Array.getElem?_eq_none outside] at load
      cases load
  have fits : m.rom.size ≤ 32768 := m.rom_size_le
  refine ⟨by grind, load, ?_⟩
  omega

/-- After the flag is set, a plain step runs the load again: A holds the target and the program
counter is back at the jump. -/
theorem reload (flagged : m.LoopJump dest comp jump) :
    m.step.step = m.step.withRegs m.a m.step.d m.pc := by
  obtain ⟨back, load, small⟩ := flagged.target
  have fetched : m.step.rom[m.step.pc.toNat]? = some (Inst.load m.a).toWord := by
    rw [flagged.pc_step, flagged.step_eq, rom_compute]
    exact load
  rw [step_of_fetch _ _ fetched, runInst_load, Inst.toWord_load _ small, flagged.pc_step, back]

/-- The second run of the compute instruction, from the reloaded state: A is the target again,
D and the memory are what the first run left. -/
theorem rerun (flagged : m.LoopJump dest comp jump) :
    steps 2 m.step = (m.step.withRegs m.a m.step.d m.pc).compute m.pc dest comp jump := by
  have fetched : (m.step.withRegs m.a m.step.d m.pc).rom[(m.step.withRegs m.a m.step.d
      m.pc).pc.toNat]? = some (Inst.compute dest comp jump).toWord := by
    rw [rom_withRegs, pc_withRegs, flagged.step_eq, rom_compute]
    exact flagged.fetch
  show m.step.step.step = _
  rw [flagged.reload, step_of_fetch _ _ fetched]
  rfl

end LoopJump

/-- Halt detection is sound exactly up to what the looping instruction writes. When a step sets
the halted flag through a taken jump back to the load of its own target, two more plain steps
give back the same RAM, A, D and program counter exactly when the instruction, run again on the
state it produced, jumps again and, if it writes any register, computes the same output as the
first time. In particular the loop is a fixed point whenever the instruction writes neither D
nor M. -/
theorem selfLoop_fixpoint (m : Machine) (dest : Dest) (comp : Comp) (jump : Jump) (flagged : m.LoopJump dest comp jump) :
    m.step.halted = true ∧
    ((steps 2 m.step).PlainEq m.step ↔
      jump.taken (comp.eval m.step.d m.a (m.step.get m.a)) = true ∧
        (dest.isNull = false →
          comp.eval m.step.d m.a (m.step.get m.a) = comp.eval m.d m.a (m.get m.a))) ∧
    (dest.d = false → dest.m = false → (steps 2 m.step).PlainEq m.step) := by
  obtain ⟨back, -, -⟩ := flagged.target
  have first := flagged.step_eq
  have second := flagged.rerun
  have taken := flagged.taken
  -- the outputs of the first and of the second run
  generalize firstOut : comp.eval m.d m.a (m.get m.a) = out at taken
  generalize secondOut : comp.eval m.step.d m.a (m.step.get m.a) = out'
  -- what the first run left: M at the target, A and D as its destination says
  have ram₁ : m.step.ram = if dest.m then (m.set m.a out).ram else m.ram := by
    rw [first, ram_compute, firstOut]
  have d₁ : m.step.d = if dest.d then out else m.d := by
    rw [first, d_compute, firstOut]
  have get₁ : dest.m = true → m.step.get m.a = out := by
    intro writes
    simp only [get, ram₁, writes, if_true]
    exact get_set_self m m.a out
  -- each register after the second run against the first
  have ramBack : (steps 2 m.step).ram = m.step.ram ↔ (dest.m = true → out' = out) := by
    rw [second, ram_compute]
    simp only [a_withRegs, d_withRegs, get_withRegs, secondOut, set_withRegs, ram_withRegs]
    cases writes : dest.m
    · simp
    · rw [if_pos rfl, set_ram_eq_iff, get₁ writes]
      simp [eq_comm]
  have aBack : (steps 2 m.step).a = m.step.a ↔ (dest.a = true → out' = out) := by
    rw [second, a_compute, first, a_compute, firstOut]
    simp only [a_withRegs, d_withRegs, get_withRegs, ← first, secondOut]
    cases dest.a <;> simp
  have dBack : (steps 2 m.step).d = m.step.d ↔ (dest.d = true → out' = out) := by
    rw [second, d_compute]
    simp only [a_withRegs, d_withRegs, get_withRegs, secondOut]
    cases writes : dest.d
    · simp
    · simp [d₁, writes]
  have pcBack : (steps 2 m.step).pc = m.step.pc ↔ jump.taken out' = true := by
    rw [second, pc_compute, flagged.pc_step]
    simp only [a_withRegs, d_withRegs, get_withRegs, secondOut]
    cases jump.taken out'
    · simp only [Bool.false_eq_true, if_false]
      grind
    · simp
  have iff : (steps 2 m.step).PlainEq m.step ↔
      jump.taken out' = true ∧ (dest.isNull = false → out' = out) := by
    rw [PlainEq, ramBack, aBack, dBack, pcBack, Dest.isNull_eq_false_iff]
    grind
  refine ⟨flagged.halted, iff, fun keepsD keepsM => iff.mpr ?_⟩
  -- neither D nor M written: the second run reads what the first read
  have sameInputs : out' = out := by
    rw [← secondOut, ← firstOut, d₁, keepsD]
    simp only [Bool.false_eq_true, if_false, get, ram₁, keepsM]
  exact ⟨sameInputs ▸ taken, fun _ => sameInputs⟩

/-- The countdown `@5` `D=A` `@2` `D=D-1;JGT`, as it reaches the jump with D = 5: the jump goes
back to `@2`, so the step that runs it sets the flag. -/
def countdown : Machine :=
  { rom := #[5, 60432, 2, 58257], a := 2, d := 5, pc := 3 }

/-- The countdown is flagged halted after its first round, while the plain machine counts D down
from 4 to 3 on the next round. -/
theorem countdown_flagged_moving :
    countdown.LoopJump Dest.D Comp.decD Jump.JGT ∧
      countdown.step.halted = true ∧ ¬ (steps 2 countdown.step).PlainEq countdown.step := by
  have flagged : countdown.LoopJump Dest.D Comp.decD Jump.JGT :=
    ⟨⟨58257, rfl, by decide⟩, by decide, by decide⟩
  obtain ⟨halted, iff, -⟩ := selfLoop_fixpoint countdown _ _ _ flagged
  refine ⟨flagged, halted, fun back => ?_⟩
  obtain ⟨-, sameOut⟩ := iff.mp back
  have differ : Comp.decD.eval countdown.step.d countdown.a (countdown.step.get countdown.a) ≠
      Comp.decD.eval countdown.d countdown.a (countdown.get countdown.a) := by decide
  exact differ (sameOut rfl)

end Machine

end Hack
