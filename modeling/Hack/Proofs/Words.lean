import Hack.Isa.Inst
import Hack.Isa.Symbol
/-! Instruction words as numbers, and every word an instruction makes decoding back to it. -/

set_option autoImplicit false

namespace Hack.Inst

/-- A load of a value below 2^15 keeps the whole value. -/
theorem toWord_load (v : UInt16) (small : v.toNat < 32768) : (load v).toWord = v := by
  apply UInt16.toNat_inj.mp
  simp only [toWord, UInt16.toNat_and]
  have mask : (0x7FFF : UInt16).toNat = 2 ^ 15 - 1 := rfl
  rw [mask, Nat.and_two_pow_sub_one_eq_mod, Nat.mod_eq_of_lt (show v.toNat < 2 ^ 15 from small)]

/-- The number of a compute word: `111` followed by the seven computation bits, the three
destination bits and the three jump bits. -/
theorem toNat_toWord_compute (dest : Dest) (comp : Comp) (jump : Jump) :
    (compute dest comp jump).toWord.toNat =
      57344 + comp.code.toNat * 64 + dest.code.toNat * 8 + jump.code.toNat := by
  have hc := comp.code_lt
  have hd := dest.code_lt
  have hj := jump.code_lt
  simp only [toWord, computePrefix, UInt16.toNat_or, UInt16.toNat_shiftLeft,
    UInt16.lt_iff_toNat_lt] at *
  generalize comp.code.toNat = c at *
  generalize dest.code.toNat = d at *
  generalize jump.code.toNat = j at *
  simp only [UInt16.reduceToNat, Nat.reduceMod, Nat.shiftLeft_eq, Nat.reducePow] at *
  -- the three fields occupy disjoint bits, so each `or` is a sum
  have low : d * 8 ||| j = d * 8 + j := by
    rw [Nat.mul_comm, show (8 : Nat) = 2 ^ 3 from rfl, Nat.two_pow_add_eq_or_of_lt (by omega)]
  have middle : c * 64 ||| (d * 8 + j) = c * 64 + (d * 8 + j) := by
    rw [Nat.mul_comm, show (64 : Nat) = 2 ^ 6 from rfl, Nat.two_pow_add_eq_or_of_lt (by omega)]
  have high : 57344 ||| (c * 64 + (d * 8 + j)) = 57344 + (c * 64 + (d * 8 + j)) := by
    rw [show (57344 : Nat) = 2 ^ 13 * 7 from rfl, Nat.two_pow_add_eq_or_of_lt (by omega)]
  rw [Nat.mod_eq_of_lt (by omega : c * 64 < 65536), Nat.mod_eq_of_lt (by omega : d * 8 < 65536),
    Nat.or_assoc, Nat.or_assoc, low, middle, high]
  omega

/-- The same layout as a word. -/
theorem toWord_compute (dest : Dest) (comp : Comp) (jump : Jump) :
    (compute dest comp jump).toWord =
      0b111 * 8192 + comp.code * 64 + dest.code * 8 + jump.code := by
  apply UInt16.toNat_inj.mp
  have hc := comp.code_lt
  have hd := dest.code_lt
  have hj := jump.code_lt
  simp only [UInt16.lt_iff_toNat_lt, UInt16.reduceToNat] at hc hd hj
  rw [toNat_toWord_compute]
  simp only [UInt16.toNat_add, UInt16.toNat_mul, UInt16.reduceToNat]
  omega

/-- Masking a word with `1 <<< k - 1` keeps its value modulo `1 <<< k`. -/
theorem toNat_and_mask (w : UInt16) (k : Nat) (mask : UInt16)
    (isMask : mask.toNat = 1 <<< k - 1) :
    (w &&& mask).toNat = w.toNat % 1 <<< k := by
  rw [UInt16.toNat_and, isMask, Nat.one_shiftLeft, Nat.and_two_pow_sub_one_eq_mod]

/-- Masking `(1 <<< k) * a + r` with `(1 <<< k) * b` masks `a` with `b` when `r` stays below
`1 <<< k`: the low bits and the high bits do not meet. -/
theorem and_two_pow_mul (a b r k : Nat) (small : r < 1 <<< k) :
    (1 <<< k * a + r) &&& 1 <<< k * b = 1 <<< k * (a &&& b) := by
  rw [Nat.one_shiftLeft] at *
  apply Nat.eq_of_testBit_eq
  intro i
  rw [Nat.testBit_and, Nat.testBit_two_pow_mul_add a small]
  by_cases low : i < k
  · simp [low, Nat.testBit_two_pow_mul, Nat.not_le.mpr low]
  · simp [low, Nat.testBit_two_pow_mul, Nat.le_of_not_lt low, Nat.testBit_and]

/-- A load word decodes as the load of the word itself. -/
theorem ofWord?_toWord_load (v : UInt16) :
    ofWord? (load v).toWord = some (load (load v).toWord) := by
  have top : (load v).toWord &&& 0x8000 = 0 := by
    apply UInt16.toNat_inj.mp
    simp only [toWord, UInt16.toNat_and, UInt16.reduceToNat]
    rw [Nat.and_assoc]
    simp
  simp [ofWord?, top]

/-- A compute word decodes back to its instruction. -/
theorem ofWord?_toWord_compute (dest : Dest) (comp : Comp) (jump : Jump) :
    ofWord? (compute dest comp jump).toWord = some (compute dest comp jump) := by
  have hc := comp.code_lt
  have hd := dest.code_lt
  have hj := jump.code_lt
  simp only [UInt16.lt_iff_toNat_lt, UInt16.reduceToNat] at hc hd hj
  have number := toNat_toWord_compute dest comp jump
  generalize (compute dest comp jump).toWord = w at number
  have prefixBits : w &&& computePrefix = computePrefix := by
    apply UInt16.toNat_inj.mp
    have split : w.toNat = 1 <<< 13 * 7 + (w.toNat - 57344) := by omega
    rw [UInt16.toNat_and, split, show computePrefix.toNat = 1 <<< 13 * 7 from rfl,
      and_two_pow_mul 7 7 _ 13 (by omega), Nat.and_self]
  have sign : (w &&& 0x8000 == 0) = false := by
    have split : w.toNat = 1 <<< 15 * 1 + (w.toNat - 32768) := by omega
    have top : (w &&& 0x8000).toNat = 1 <<< 15 * 1 := by
      rw [UInt16.toNat_and, split, show (0x8000 : UInt16).toNat = 1 <<< 15 * 1 from rfl,
        and_two_pow_mul 1 1 _ 15 (by omega), Nat.and_self]
    simp only [beq_eq_false_iff_ne, ne_eq]
    intro zero
    simp [zero] at top
  have compBits : (w >>> 6) &&& 0x7F = comp.code := by
    apply UInt16.toNat_inj.mp
    rw [toNat_and_mask _ 7 _ rfl, UInt16.toNat_shiftRight]
    simp only [UInt16.reduceToNat, Nat.reduceMod, Nat.shiftRight_eq_div_pow, Nat.one_shiftLeft]
    omega
  have destBits : (w >>> 3) &&& 7 = dest.code := by
    apply UInt16.toNat_inj.mp
    rw [toNat_and_mask _ 3 _ rfl, UInt16.toNat_shiftRight]
    simp only [UInt16.reduceToNat, Nat.reduceMod, Nat.shiftRight_eq_div_pow, Nat.one_shiftLeft]
    omega
  have jumpBits : w &&& 7 = jump.code := by
    apply UInt16.toNat_inj.mp
    rw [toNat_and_mask _ 3 _ rfl, Nat.one_shiftLeft]
    omega
  simp [ofWord?, sign, prefixBits, compBits, destBits, jumpBits, Comp.ofCode?_code,
    Dest.ofCode_code, Jump.ofCode_code]

end Hack.Inst

namespace Hack

theorem predefined_lt (name : String) (a : UInt16) (found : predefined.lookup name = some a) :
    a.toNat < 32768 := by
  obtain ⟨pre, post, split, -⟩ := List.lookup_eq_some_iff.mp found
  have member : (name, a) ∈ predefined := by
    rw [split]
    simp
  have bounded : ∀ p ∈ predefined, p.2.toNat < 32768 := by decide
  exact bounded _ member

end Hack
