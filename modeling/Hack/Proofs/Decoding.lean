import Hack.Asm.Session
import Hack.Proofs.StatementText
/-! Decoding words read in numbers, and instructions coming back from their words and their text. -/

set_option autoImplicit false

namespace Hack

namespace Comp

theorem code_of_ofCode? {bits : UInt16} {c : Comp} (found : ofCode? bits = some c) :
    c.code = bits := by
  simpa using List.find?_some found

theorem ofCode?_eq_none_iff (bits : UInt16) : ofCode? bits = none ↔ ∀ c : Comp, c.code ≠ bits := by
  simp [ofCode?, List.find?_eq_none, mem_all]

end Comp

theorem Dest.code_ofCode {n : Nat} (small : n < 8) : (ofCode n.toUInt16).code.toNat = n := by
  have three : n = 0 ∨ n = 1 ∨ n = 2 ∨ n = 3 ∨ n = 4 ∨ n = 5 ∨ n = 6 ∨ n = 7 := by omega
  rcases three with rfl | rfl | rfl | rfl | rfl | rfl | rfl | rfl <;> rfl

theorem Jump.code_ofCode {n : Nat} (small : n < 8) : (ofCode n.toUInt16).code.toNat = n := by
  have three : n = 0 ∨ n = 1 ∨ n = 2 ∨ n = 3 ∨ n = 4 ∨ n = 5 ∨ n = 6 ∨ n = 7 := by omega
  rcases three with rfl | rfl | rfl | rfl | rfl | rfl | rfl | rfl <;> rfl

namespace Inst

/-! ### The fields of a word in numbers -/

/-- Masking with `(1 <<< k) * b` masks the bits of `n` from `k` on. -/
theorem and_shifted_mask (n b k : Nat) : n &&& 1 <<< k * b = 1 <<< k * (n / 1 <<< k &&& b) :=
  calc n &&& 1 <<< k * b
      = (1 <<< k * (n / 1 <<< k) + n % 1 <<< k) &&& 1 <<< k * b := by rw [Nat.div_add_mod]
    _ = 1 <<< k * (n / 1 <<< k &&& b) :=
      and_two_pow_mul _ _ _ _ (Nat.mod_lt _ (by rw [Nat.one_shiftLeft]; exact Nat.two_pow_pos k))

/-- The sign test of decoding: bit 15 is clear exactly below `0x8000`. -/
theorem and_sign_eq_zero_iff (w : UInt16) : w &&& 0x8000 = 0 ↔ w.toNat < 32768 := by
  have masked : (w &&& 0x8000).toNat = 32768 * (w.toNat / 32768 % 2) := by
    rw [UInt16.toNat_and, show (0x8000 : UInt16).toNat = 1 <<< 15 * 1 from rfl,
      and_shifted_mask, Nat.and_one_is_mod]
    rfl
  have bounded := w.toNat_lt
  rw [← UInt16.toNat_inj, masked, UInt16.toNat_zero]
  omega

/-- The prefix test of decoding: bits 15, 14 and 13 are all set exactly from `0xE000` on. -/
theorem and_prefix_eq_iff (w : UInt16) :
    w &&& computePrefix = computePrefix ↔ 57344 ≤ w.toNat := by
  have masked : (w &&& computePrefix).toNat = 8192 * (w.toNat / 8192 % 8) := by
    rw [UInt16.toNat_and, show computePrefix.toNat = 1 <<< 13 * (2 ^ 3 - 1) from rfl,
      and_shifted_mask, Nat.and_two_pow_sub_one_eq_mod]
    rfl
  have bounded := w.toNat_lt
  rw [← UInt16.toNat_inj, masked, show computePrefix.toNat = 57344 from rfl]
  omega

theorem compBits_eq (w : UInt16) : (w >>> 6) &&& 0x7F = (w.toNat / 64 % 128).toUInt16 := by
  apply UInt16.toNat_inj.mp
  rw [toNat_and_mask _ 7 _ rfl, UInt16.toNat_shiftRight]
  simp only [UInt16.reduceToNat, Nat.reduceMod, Nat.shiftRight_eq_div_pow, Nat.one_shiftLeft,
    Nat.toUInt16_eq, UInt16.toNat_ofNat']
  omega

theorem destBits_eq (w : UInt16) : (w >>> 3) &&& 7 = (w.toNat / 8 % 8).toUInt16 := by
  apply UInt16.toNat_inj.mp
  rw [toNat_and_mask _ 3 _ rfl, UInt16.toNat_shiftRight]
  simp only [UInt16.reduceToNat, Nat.reduceMod, Nat.shiftRight_eq_div_pow, Nat.one_shiftLeft,
    Nat.toUInt16_eq, UInt16.toNat_ofNat']
  omega

theorem jumpBits_eq (w : UInt16) : w &&& 7 = (w.toNat % 8).toUInt16 := by
  apply UInt16.toNat_inj.mp
  rw [toNat_and_mask _ 3 _ rfl]
  simp only [Nat.one_shiftLeft, Nat.toUInt16_eq, UInt16.toNat_ofNat']
  omega

/-! ### Decoding in three ranges -/

theorem ofWord?_of_lt {w : UInt16} (small : w.toNat < 32768) : ofWord? w = some (load w) := by
  simp [ofWord?, (and_sign_eq_zero_iff w).mpr small]

theorem ofWord?_of_unprefixed {w : UInt16} (signed : 32768 ≤ w.toNat) (low : w.toNat < 57344) :
    ofWord? w = none := by
  have sign : w &&& 0x8000 ≠ 0 := fun zero => by
    have := (and_sign_eq_zero_iff w).mp zero
    omega
  have unprefixed : w &&& computePrefix ≠ computePrefix := fun full => by
    have := (and_prefix_eq_iff w).mp full
    omega
  simp [ofWord?, sign, unprefixed]

theorem ofWord?_of_prefixed {w : UInt16} (high : 57344 ≤ w.toNat) :
    ofWord? w = (Comp.ofCode? (w.toNat / 64 % 128).toUInt16).map fun comp =>
      compute (Dest.ofCode (w.toNat / 8 % 8).toUInt16) comp (Jump.ofCode (w.toNat % 8).toUInt16) := by
  have sign : w &&& 0x8000 ≠ 0 := fun zero => by
    have := (and_sign_eq_zero_iff w).mp zero
    omega
  have signTest : (w &&& 0x8000 == 0) = false := by simpa using sign
  have prefixTest : (w &&& computePrefix != computePrefix) = false := by
    simp [(and_prefix_eq_iff w).mpr high]
  simp only [ofWord?, signTest, prefixTest, Bool.false_eq_true, ↓reduceIte]
  rw [compBits_eq, destBits_eq, jumpBits_eq]

/-- A word is no instruction exactly when bit 15 is set and either bits 14 and 13 are not both
set or bits 12 to 6 are no computation's code. -/
theorem ofWord?_eq_none_iff (w : UInt16) :
    ofWord? w = none ↔
      32768 ≤ w.toNat ∧ (w.toNat < 57344 ∨ ∀ c : Comp, c.code.toNat ≠ w.toNat / 64 % 128) := by
  rcases Nat.lt_or_ge w.toNat 32768 with small | signed
  · simp [ofWord?_of_lt small, Nat.not_le.mpr small]
  rcases Nat.lt_or_ge w.toNat 57344 with low | high
  · simp [ofWord?_of_unprefixed signed low, signed, low]
  have bits : ∀ c : Comp, c.code = (w.toNat / 64 % 128).toUInt16 ↔
      c.code.toNat = w.toNat / 64 % 128 := by
    intro c
    rw [← UInt16.toNat_inj, Nat.toUInt16_eq, UInt16.toNat_ofNat']
    omega
  simp only [ofWord?_of_prefixed high, Option.map_eq_none_iff, Comp.ofCode?_eq_none_iff, ne_eq,
    bits, signed, Nat.not_lt.mpr high, true_and, false_or]

/-! ### Words back from instructions -/

/-- An instruction its word keeps whole: every compute, and a load of at most fifteen bits. -/
def Encodable : Inst → Prop
  | load v => v.toNat ≤ addressMax
  | compute .. => True

theorem ofWord?_toWord {i : Inst} (fits : i.Encodable) : ofWord? i.toWord = some i := by
  cases i with
  | load v =>
    have small : v.toNat < 32768 := Nat.lt_succ_of_le fits
    rw [toWord_load v small, ofWord?_of_lt small]
  | compute dest comp jump => exact ofWord?_toWord_compute dest comp jump

/-- A word that decodes is the word of the instruction it decodes to. -/
theorem toWord_of_ofWord? {w : UInt16} {i : Inst} (decoded : ofWord? w = some i) :
    i.toWord = w := by
  rcases Nat.lt_or_ge w.toNat 32768 with small | signed
  · rw [ofWord?_of_lt small, Option.some_inj] at decoded
    rw [← decoded]
    exact toWord_load w small
  rcases Nat.lt_or_ge w.toNat 57344 with low | high
  · rw [ofWord?_of_unprefixed signed low] at decoded
    cases decoded
  rw [ofWord?_of_prefixed high, Option.map_eq_some_iff] at decoded
  obtain ⟨comp, found, rfl⟩ := decoded
  have bounded := w.toNat_lt
  have compCode : comp.code.toNat = w.toNat / 64 % 128 := by
    rw [Comp.code_of_ofCode? found, Nat.toUInt16_eq, UInt16.toNat_ofNat']
    omega
  apply UInt16.toNat_inj.mp
  rw [toNat_toWord_compute, compCode, Dest.code_ofCode (by omega), Jump.code_ofCode (by omega)]
  omega

theorem encodable_of_ofWord? {w : UInt16} {i : Inst} (decoded : ofWord? w = some i) :
    i.Encodable := by
  rcases Nat.lt_or_ge w.toNat 32768 with small | signed
  · rw [ofWord?_of_lt small, Option.some_inj] at decoded
    rw [← decoded]
    exact Nat.le_of_lt_succ small
  · rw [← toWord_of_ofWord? decoded] at signed
    cases i with
    | load v =>
      -- a load word never has bit 15 set
      have masked : (load v).toWord.toNat < 32768 := by
        simp only [toWord, UInt16.toNat_and, show (0x7FFF : UInt16).toNat = 2 ^ 15 - 1 from rfl,
          Nat.and_two_pow_sub_one_eq_mod]
        exact Nat.mod_lt _ (by decide)
      omega
    | compute dest comp jump => trivial

/-! ### Instructions through their text -/

/-- The statement an instruction is. -/
def stmt : Inst → Asm.Stmt
  | load v => .load (.literal v)
  | compute dest comp jump => .compute dest comp jump

/-- The instruction as generated code writes it, with its address as a number. -/
def symbolic : Inst → Vm.Instr
  | load v => .load (.number v.toNat)
  | compute dest comp jump => .compute dest comp jump

theorem text_symbolic (i : Inst) : i.symbolic.text = i.text := by
  cases i <;> rfl

theorem sound_symbolic {i : Inst} (fits : i.Encodable) : (Vm.Piece.instr i.symbolic).Sound := by
  cases i with
  | load v => exact fits
  | compute dest comp jump => trivial

theorem lineCode_of_code {text : String}
    (code : ∀ c ∈ text.toList, c ≠ '/' ∧ Text.isBlank c = false) :
    Asm.lineCode text = text.toList := by
  rw [Asm.lineCode, Text.beforeComment_of_no_slash _ (fun slash => (code _ slash).1 rfl)]
  exact List.filter_eq_self.mpr fun c member => by simp [(code c member).2]

/-- The text of an instruction its word keeps whole reads back as the instruction. -/
theorem parse_text {i : Inst} (fits : i.Encodable) (pc : UInt16) :
    Asm.Stmt.parse i.text pc = .ok (some i.stmt) := by
  obtain ⟨c, rest, chars, notLabel, code⟩ := Vm.Instr.text_code (sound_symbolic fits)
  rw [text_symbolic] at chars code
  have lineCode := lineCode_of_code code
  cases i with
  | load v =>
    have load : Asm.lineCode (load v).text = '@' :: (toString v.toNat).toList := by
      rw [lineCode]
      simp [text]
    rw [Asm.Stmt.parse_of_loadCode pc load, String.ofList_toList, Asm.Operand.parse_toString fits,
      Nat.toUInt16_eq, UInt16.ofNat_toNat]
    rfl
  | compute dest comp jump =>
    have notLoad : c ≠ '@' :=
      (Asm.codeChar_text_compute dest comp jump c (chars ▸ List.mem_cons_self)).2.1
    rw [Asm.Stmt.parse_of_computeCode pc (lineCode.trans chars) notLoad notLabel, ← chars,
      Asm.parseCompute_text]
    rfl

theorem resolveStmt_stmt (table : Asm.SymbolTable) (i : Inst) :
    Asm.Session.resolveStmt table i.stmt = .ok (some i.toWord) := by
  cases i <;> rfl

/-- Instructions round-trip through their words and through their text. An instruction its
word keeps whole decodes back from its word, and its text reads as a statement that resolves to
its word under every symbol table. A word is no instruction exactly when bit 15 is set and bits
14 and 13 are not both set or bits 12 to 6 are no computation's code; a word that decodes is the
word of its instruction, and that instruction's text resolves back to the word. -/
theorem word_text_roundTrip :
    (∀ i : Inst, i.Encodable →
      ofWord? i.toWord = some i ∧
      ∀ pc : UInt16, ∃ st, Asm.Stmt.parse i.text pc = .ok (some st) ∧
        ∀ table, Asm.Session.resolveStmt table st = .ok (some i.toWord)) ∧
    ∀ w : UInt16,
      (ofWord? w = none ↔
        32768 ≤ w.toNat ∧ (w.toNat < 57344 ∨ ∀ c : Comp, c.code.toNat ≠ w.toNat / 64 % 128)) ∧
      ∀ i, ofWord? w = some i → i.toWord = w ∧
        ∀ pc : UInt16, ∃ st, Asm.Stmt.parse i.text pc = .ok (some st) ∧
          ∀ table, Asm.Session.resolveStmt table st = .ok (some w) := by
  have throughText : ∀ i : Inst, i.Encodable → ∀ pc : UInt16, ∃ st,
      Asm.Stmt.parse i.text pc = .ok (some st) ∧
        ∀ table, Asm.Session.resolveStmt table st = .ok (some i.toWord) :=
    fun i fits pc => ⟨i.stmt, parse_text fits pc, fun table => resolveStmt_stmt table i⟩
  refine ⟨fun i fits => ⟨ofWord?_toWord fits, throughText i fits⟩, fun w => ⟨ofWord?_eq_none_iff w, ?_⟩⟩
  intro i decoded
  have word := toWord_of_ofWord? decoded
  exact ⟨word, word ▸ throughText i (encodable_of_ofWord? decoded)⟩

/-- The largest load, `@32767`, comes back from its word and through its text. -/
theorem load_max_roundTrip :
    (load 32767).Encodable ∧ ofWord? (load 32767).toWord = some (load 32767) ∧
      ∀ pc : UInt16, ∃ st, Asm.Stmt.parse (load 32767).text pc = .ok (some st) ∧
        ∀ table, Asm.Session.resolveStmt table st = .ok (some (load 32767).toWord) :=
  have fits : (load 32767).Encodable := Nat.le_refl _
  ⟨fits, word_text_roundTrip.1 (load 32767) fits⟩

end Inst

end Hack
