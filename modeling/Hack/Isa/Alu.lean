import Hack.Isa.Comp
/-! The Hack ALU driven by the seven bits of a computation code, and the proof that it computes
what `Comp.eval` gives for each computation. -/

set_option autoImplicit false

namespace Hack

/-- The control lines of the ALU. -/
structure Control where
  /-- Read M rather than A as the second operand. -/
  am : Bool
  /-- Zero the first operand. -/
  zx : Bool
  /-- Negate the first operand bitwise. -/
  nx : Bool
  /-- Zero the second operand. -/
  zy : Bool
  /-- Negate the second operand bitwise. -/
  ny : Bool
  /-- Add rather than take the bitwise and. -/
  f : Bool
  /-- Negate the output bitwise. -/
  no : Bool
  deriving DecidableEq, Repr

namespace Control

/-- The control lines a seven-bit code sets: bit 6 is `am`, bits 5 to 0 are `zx` to `no`. -/
def ofCode (code : UInt16) : Control :=
  let bit (i : Nat) : Bool := code.toNat.testBit i
  ⟨bit 6, bit 5, bit 4, bit 3, bit 2, bit 1, bit 0⟩

/-- The ALU's output with D as the first operand and A or M as the second. -/
def run (k : Control) (dv av mv : UInt16) : UInt16 :=
  let x := if k.zx then 0 else dv
  let x := if k.nx then ~~~x else x
  let y := if k.am then mv else av
  let y := if k.zy then 0 else y
  let y := if k.ny then ~~~y else y
  let out := if k.f then x + y else x &&& y
  if k.no then ~~~out else out

end Control

namespace Comp

/-! Sixteen-bit identities the code table rests on: complementing an operand and the adder's output
subtracts, and zero complemented is -1 for the adder. -/

section Identities

variable (x y : UInt16)

theorem not_not_add : ~~~(~~~x + y) = x - y := by
  simp only [UInt16.not_eq_neg_sub]
  grind

theorem not_add_not : ~~~(x + ~~~y) = y - x := by
  rw [UInt16.add_comm, not_not_add]

theorem not_sub_one : ~~~(x - 1) = 0 - x := by
  simp only [UInt16.not_eq_neg_sub]
  grind

theorem zero_sub_not : 0 - ~~~x = x + 1 := by
  simp only [UInt16.not_eq_neg_sub]
  grind

theorem neg_one_add : -1 + x = x - 1 := by
  rw [UInt16.add_comm, UInt16.add_neg_eq_sub]

/-- De Morgan: complementing both operands of an and and its output gives the or. -/
theorem not_and_not : ~~~(~~~x &&& ~~~y) = x ||| y := by
  apply UInt16.toBitVec_inj.mp
  simp [BitVec.not_and]

end Identities

theorem eval_eq_run (c : Comp) (dv av mv : UInt16) :
    c.eval dv av mv = (Control.ofCode c.code).run dv av mv := by
  -- a code's control lines are constants; what they leave is one of the identities above
  cases c <;> simp +decide only [Control.run, Comp.eval, if_true, if_false] <;>
    simp only [UInt16.not_zero, UInt16.and_neg_one, UInt16.neg_one_and, UInt16.add_neg_eq_sub,
      neg_one_add, not_sub_one, zero_sub_not, not_not_add, not_add_not, not_and_not]

end Comp

end Hack
