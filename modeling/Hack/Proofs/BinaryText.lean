import Hack.Machine.Rom
import Hack.Proofs.AsmLabels
import Hack.Proofs.CommandGrammar
import Hack.Proofs.Naming
/-! Binary program text: the lines the loader takes, and the round trip between words and text. -/

set_option autoImplicit false

namespace Hack

namespace Text

/-! ### Binary numerals -/

theorem foldl_digits_two (cs : List Char) (acc : Nat) :
    cs.foldl (fun acc c => acc * 2 + (c.toNat - '0'.toNat)) acc =
      acc * 1 <<< cs.length + cs.foldl (fun acc c => acc * 2 + (c.toNat - '0'.toNat)) 0 := by
  induction cs generalizing acc with
  | nil => simp
  | cons c cs ih =>
    simp only [List.foldl_cons, List.length_cons, Nat.zero_mul, Nat.zero_add]
    rw [ih, ih (c.toNat - '0'.toNat), Nat.shiftLeft_succ]
    simp only [Nat.one_shiftLeft]
    rw [Nat.add_mul, Nat.mul_assoc, Nat.mul_comm 2 (2 ^ cs.length), Nat.add_assoc]

/-- A leading digit weighs two to the number of digits after it. -/
theorem digitsValue_two_cons (c : Char) (cs : List Char) :
    digitsValue 2 (c :: cs) = (c.toNat - '0'.toNat) * 1 <<< cs.length + digitsValue 2 cs := by
  simp only [digitsValue, List.foldl_cons, Nat.zero_mul, Nat.zero_add]
  exact foldl_digits_two cs _

/-- A binary digit. -/
def BinaryDigit (c : Char) : Prop := c = '0' ∨ c = '1'

theorem digitValue_of_binaryDigit {c : Char} (binary : BinaryDigit c) :
    c.toNat - '0'.toNat = if c = '1' then 1 else 0 := by
  rcases binary with rfl | rfl <;> rfl

theorem digitsValue_lt {cs : List Char} (binary : ∀ c ∈ cs, BinaryDigit c) :
    digitsValue 2 cs < 1 <<< cs.length := by
  induction cs with
  | nil => decide
  | cons c cs ih =>
    have tail := ih fun d member => binary d (List.mem_cons_of_mem c member)
    rw [digitsValue_two_cons, digitValue_of_binaryDigit (binary c List.mem_cons_self),
      List.length_cons, Nat.shiftLeft_succ]
    split <;> omega

/-- The `k` low bits of `n` as binary digits, most significant first. -/
def bitsMsb (k n : Nat) : List Char :=
  (List.range k).reverse.map fun i => if n.testBit i then '1' else '0'

theorem bitsMsb_succ (k n : Nat) :
    bitsMsb (k + 1) n = (if n.testBit k then '1' else '0') :: bitsMsb k n := by
  simp [bitsMsb, List.range_succ]

theorem length_bitsMsb (k n : Nat) : (bitsMsb k n).length = k := by
  simp [bitsMsb]

theorem bitsMsb_mod (k n : Nat) : bitsMsb k (n % 1 <<< k) = bitsMsb k n := by
  apply List.map_congr_left
  intro i member
  have low : i < k := by simpa using member
  rw [Nat.one_shiftLeft, Nat.testBit_mod_two_pow]
  simp [low]

/-- Reading the `k` low bits of `n` gives `n` modulo `2 ^ k`. -/
theorem digitsValue_bitsMsb (k n : Nat) : digitsValue 2 (bitsMsb k n) = n % 1 <<< k := by
  induction k with
  | zero => simp [bitsMsb, digitsValue, Nat.mod_one]
  | succ k ih =>
    rw [bitsMsb_succ, digitsValue_two_cons, length_bitsMsb, ih]
    simp only [Nat.one_shiftLeft]
    rw [Nat.mod_pow_succ, Nat.testBit_eq_decide_div_mod_eq]
    have digit : n / 2 ^ k % 2 = 0 ∨ n / 2 ^ k % 2 = 1 := by omega
    rcases digit with top | top
    · simp only [top, Nat.zero_ne_one, decide_false, Bool.false_eq_true, if_false]
      simp
    · simp only [top, decide_true, if_true]
      have one : '1'.toNat - '0'.toNat = 1 := rfl
      rw [one]
      omega

/-- Binary digits of any length read back as themselves. -/
theorem bitsMsb_digitsValue {cs : List Char} (binary : ∀ c ∈ cs, BinaryDigit c) :
    bitsMsb cs.length (digitsValue 2 cs) = cs := by
  induction cs with
  | nil => rfl
  | cons c cs ih =>
    have tail : ∀ d ∈ cs, BinaryDigit d := fun d member => binary d (List.mem_cons_of_mem c member)
    have small : digitsValue 2 cs < 2 ^ cs.length := by
      simpa [Nat.one_shiftLeft] using digitsValue_lt tail
    have value : digitsValue 2 (c :: cs) =
        2 ^ cs.length * (c.toNat - '0'.toNat) + digitsValue 2 cs := by
      rw [digitsValue_two_cons, Nat.one_shiftLeft, Nat.mul_comm]
    -- the leading digit is the top bit, the digits after it are the value below it
    have below : digitsValue 2 (c :: cs) % 1 <<< cs.length = digitsValue 2 cs := by
      rw [value, Nat.one_shiftLeft, Nat.mul_add_mod, Nat.mod_eq_of_lt small]
    have top : (digitsValue 2 (c :: cs)).testBit cs.length = decide (c = '1') := by
      rw [value, Nat.testBit_two_pow_mul_add _ small, if_neg (Nat.lt_irrefl _), Nat.sub_self,
        digitValue_of_binaryDigit (binary c List.mem_cons_self)]
      split <;> simp_all
    rw [List.length_cons, bitsMsb_succ, ← bitsMsb_mod, below, ih tail, top]
    rcases binary c List.mem_cons_self with rfl | rfl <;> rfl

theorem binaryDigit_of_mem_bitsMsb {k n : Nat} {c : Char} (member : c ∈ bitsMsb k n) :
    BinaryDigit c := by
  simp only [bitsMsb, List.mem_map] at member
  obtain ⟨i, -, rfl⟩ := member
  split
  · exact Or.inr rfl
  · exact Or.inl rfl

/-- The sixteen digits of a word are the sixteen low bits of its number. -/
theorem binary16_eq (w : UInt16) : binary16 w = String.ofList (bitsMsb 16 w.toNat) := by
  unfold binary16 bitsMsb
  apply congrArg String.ofList
  apply List.map_congr_left
  intro i member
  have low : i < 16 := by simpa using member
  have bit : ((w >>> i.toUInt16) &&& 1 == 1) = w.toNat.testBit i := by
    rw [Nat.testBit_eq_decide_div_mod_eq, Bool.eq_iff_iff, beq_iff_eq, decide_eq_true_iff,
      ← UInt16.toNat_inj, UInt16.toNat_and, UInt16.toNat_shiftRight, UInt16.toNat_one,
      Nat.and_one_is_mod]
    simp [Nat.shiftRight_eq_div_pow, Nat.mod_eq_of_lt low]
  rw [bit]

theorem binaryDigit_of_mem_binary16 {w : UInt16} {c : Char} (member : c ∈ (binary16 w).toList) :
    BinaryDigit c := by
  rw [binary16_eq, String.toList_ofList] at member
  exact binaryDigit_of_mem_bitsMsb member

theorem length_binary16 (w : UInt16) : (binary16 w).toList.length = 16 := by
  rw [binary16_eq, String.toList_ofList, length_bitsMsb]

theorem digitsValue_binary16 (w : UInt16) : digitsValue 2 (binary16 w).toList = w.toNat := by
  rw [binary16_eq, String.toList_ofList, digitsValue_bitsMsb]
  exact Nat.mod_eq_of_lt w.toNat_lt

/-! ### Lines of binary text -/

theorem BinaryDigit.not_blank {c : Char} (binary : BinaryDigit c) : isBlank c = false := by
  rcases binary with rfl | rfl <;> rfl

theorem trimChars_of_not_blank {cs : List Char} (filled : ∀ c ∈ cs, isBlank c = false) :
    trimChars cs = cs := by
  have keep : ∀ ds : List Char, (∀ c ∈ ds, isBlank c = false) → ds.dropWhile isBlank = ds := by
    intro ds noBlank
    cases ds with
    | nil => rfl
    | cons d rest => exact List.dropWhile_cons_of_neg (by simp [noBlank d List.mem_cons_self])
  rw [trimChars, keep cs filled, keep cs.reverse (fun c member => filled c (List.mem_reverse.mp member)),
    List.reverse_reverse]

theorem trim_binary16 (w : UInt16) : trim (binary16 w) = binary16 w := by
  rw [trim, trimChars_of_not_blank fun c member => (binaryDigit_of_mem_binary16 member).not_blank,
    String.ofList_toList]

theorem lines_hackText (ws : List UInt16) : lines (Asm.hackText ws) = ws.map binary16 := by
  have oneLine : ∀ l ∈ ws.map binary16, OneLine l := by
    intro l member
    obtain ⟨w, -, rfl⟩ := List.mem_map.mp member
    constructor
    · intro feed
      rcases binaryDigit_of_mem_binary16 feed with bad | bad <;> cases bad
    · intro ret
      rcases binaryDigit_of_mem_binary16 ret with bad | bad <;> cases bad
  have chars : (Asm.hackText ws).toList =
      ((ws.map binary16).map fun l => l.toList ++ ['\n']).flatten := by
    simp [Asm.hackText, List.flatMap, Function.comp_def]
  rw [lines, chars, ← List.append_nil (List.flatten _), linesFrom_lines _ oneLine]
  simp [linesFrom]

end Text

open Text

/-! ### One line -/

/-- A trimmed line the loader takes: sixteen binary digits, or a plus sign and fifteen. -/
def BinaryLine (line : String) : Prop :=
  (line.toList.length = 16 ∧ ∀ c ∈ line.toList, BinaryDigit c) ∨
    ∃ digits, line.toList = '+' :: digits ∧ digits.length = 15 ∧ ∀ c ∈ digits, BinaryDigit c

/-- A line with a leading plus sign read as `0`. -/
def canonicalLine (line : String) : String :=
  match line.toList with
  | '+' :: digits => String.ofList ('0' :: digits)
  | _ => line

/-- The word a line of binary text stands for. -/
def lineWord (line : String) : UInt16 :=
  (digitsValue 2 (canonicalLine line).toList).toUInt16

/-- The non-blank lines of a text, trimmed. -/
def wordLines (text : String) : List String :=
  (lines text).filterMap fun raw => if (trim raw).isEmpty then none else some (trim raw)

theorem canonicalLine_of_unsigned {line : String} (unsigned : ∀ digits, line.toList ≠ '+' :: digits) :
    canonicalLine line = line := by
  unfold canonicalLine
  split
  · rename_i digits signed
    exact absurd signed (unsigned digits)
  · rfl

/-- The canonical form of a line the loader takes is sixteen binary digits. -/
theorem BinaryLine.canonical {line : String} (shape : BinaryLine line) :
    (canonicalLine line).toList.length = 16 ∧ ∀ c ∈ (canonicalLine line).toList, BinaryDigit c := by
  rcases shape with ⟨length, binary⟩ | ⟨digits, chars, length, binary⟩
  · have unsigned : ∀ digits, line.toList ≠ '+' :: digits := by
      intro digits signed
      rcases binary '+' (signed ▸ List.mem_cons_self) with bad | bad <;> cases bad
    rw [canonicalLine_of_unsigned unsigned]
    exact ⟨length, binary⟩
  · have signed : (canonicalLine line).toList = '0' :: digits := by
      simp [canonicalLine, chars]
    rw [signed, List.length_cons, length]
    refine ⟨rfl, fun c member => ?_⟩
    rcases List.mem_cons.mp member with rfl | inner
    · exact Or.inl rfl
    · exact binary c inner

/-- A line the loader takes stands for the word whose sixteen digits are its canonical form. -/
theorem binary16_lineWord {line : String} (shape : BinaryLine line) :
    binary16 (lineWord line) = canonicalLine line := by
  obtain ⟨length, binary⟩ := shape.canonical
  have small := digitsValue_lt binary
  rw [length] at small
  have fits : (digitsValue 2 (canonicalLine line).toList).toUInt16.toNat =
      digitsValue 2 (canonicalLine line).toList := by
    rw [Nat.toUInt16_eq, UInt16.toNat_ofNat']
    exact Nat.mod_eq_of_lt small
  rw [lineWord, binary16_eq, fits, ← length, bitsMsb_digitsValue binary, String.ofList_toList]

/-- A text of one-byte characters has as many bytes as characters. -/
theorem utf8ByteSize_of_narrow {line : String} (narrow : ∀ c ∈ line.toList, c.utf8Size = 1) :
    line.utf8ByteSize = line.toList.length := by
  have ofList : ∀ cs : List Char, (∀ c ∈ cs, c.utf8Size = 1) →
      (String.ofList cs).utf8ByteSize = cs.length := by
    intro cs
    induction cs with
    | nil => intro _; rfl
    | cons c cs ih =>
      intro narrowCs
      rw [String.ofList_cons, String.utf8ByteSize_append, String.utf8ByteSize_singleton,
        narrowCs c List.mem_cons_self, ih fun d member => narrowCs d (List.mem_cons_of_mem c member),
        List.length_cons, Nat.add_comm]
  rw [← ofList line.toList narrow, String.ofList_toList]

theorem BinaryDigit.utf8Size {c : Char} (binary : BinaryDigit c) : c.utf8Size = 1 := by
  rcases binary with rfl | rfl <;> rfl

theorem binaryDigit_iff (c : Char) : (c == '0' || c == '1') = true ↔ BinaryDigit c := by
  simp [BinaryDigit]

theorem readBinaryWord?_of_signed {line : String} {digits : List Char}
    (chars : line.toList = '+' :: digits) :
    readBinaryWord? line = if !digits.isEmpty && digits.all (fun c => c == '0' || c == '1') then
      wordOfNat? (digitsValue 2 digits) else none := by
  simp only [readBinaryWord?, chars]

theorem readBinaryWord?_of_unsigned {line : String} (unsigned : ∀ digits, line.toList ≠ '+' :: digits) :
    readBinaryWord? line =
      if !line.toList.isEmpty && line.toList.all (fun c => c == '0' || c == '1') then
        wordOfNat? (digitsValue 2 line.toList) else none := by
  unfold readBinaryWord?
  split
  · rename_i digits signed
    exact absurd signed (unsigned digits)
  · rfl

theorem wordOfNat?_of_lt {n : Nat} (small : n < 65536) : wordOfNat? n = some n.toUInt16 := by
  simp [wordOfNat?, small]

/-- A line the loader takes is sixteen bytes and reads as its word. -/
theorem BinaryLine.read {line : String} (shape : BinaryLine line) :
    line.utf8ByteSize = 16 ∧ readBinaryWord? line = some (lineWord line) := by
  rcases shape with ⟨length, binary⟩ | ⟨digits, chars, length, binary⟩
  · have unsigned : ∀ digits, line.toList ≠ '+' :: digits := by
      intro digits signed
      rcases binary '+' (signed ▸ List.mem_cons_self) with bad | bad <;> cases bad
    have small := digitsValue_lt binary
    rw [length] at small
    refine ⟨(utf8ByteSize_of_narrow fun c member => BinaryDigit.utf8Size (binary c member)).trans length, ?_⟩
    have filled : line.toList.isEmpty = false := by
      rw [List.isEmpty_eq_false_iff]
      intro empty
      rw [empty] at length
      cases length
    have all : line.toList.all (fun c => c == '0' || c == '1') = true :=
      List.all_eq_true.mpr fun c member => (binaryDigit_iff c).mpr (binary c member)
    rw [readBinaryWord?_of_unsigned unsigned, filled, all, lineWord, canonicalLine_of_unsigned unsigned,
      wordOfNat?_of_lt small]
    rfl
  · have small := digitsValue_lt binary
    rw [length] at small
    have narrow : ∀ c ∈ line.toList, c.utf8Size = 1 := by
      intro c member
      rw [chars] at member
      rcases List.mem_cons.mp member with rfl | inner
      · rfl
      · exact BinaryDigit.utf8Size (binary c inner)
    refine ⟨(utf8ByteSize_of_narrow narrow).trans (by rw [chars, List.length_cons, length]), ?_⟩
    have filled : digits.isEmpty = false := by
      rw [List.isEmpty_eq_false_iff]
      intro empty
      rw [empty] at length
      cases length
    have value : lineWord line = (digitsValue 2 digits).toUInt16 := by
      simp only [lineWord, canonicalLine, chars, String.toList_ofList, digitsValue_two_cons,
        Nat.sub_self, Nat.zero_mul, Nat.zero_add]
    have all : digits.all (fun c => c == '0' || c == '1') = true :=
      List.all_eq_true.mpr fun c member => (binaryDigit_iff c).mpr (binary c member)
    rw [Nat.one_shiftLeft] at small
    rw [readBinaryWord?_of_signed chars, filled, all, value, wordOfNat?_of_lt (by omega)]
    rfl

/-- A sixteen-byte line that reads as a binary numeral is one the loader takes. -/
theorem binaryLine_of_read {line : String} {w : UInt16} (bytes : line.utf8ByteSize = 16)
    (read : readBinaryWord? line = some w) : BinaryLine line := by
  by_cases signed : ∃ digits, line.toList = '+' :: digits
  · obtain ⟨digits, chars⟩ := signed
    rw [readBinaryWord?_of_signed chars] at read
    split at read
    · rename_i accepted
      simp only [Bool.and_eq_true, Bool.not_eq_true', List.all_eq_true, binaryDigit_iff] at accepted
      have narrow : ∀ c ∈ line.toList, c.utf8Size = 1 := by
        intro c member
        rw [chars] at member
        rcases List.mem_cons.mp member with rfl | inner
        · rfl
        · exact BinaryDigit.utf8Size (accepted.2 c inner)
      have length := (utf8ByteSize_of_narrow narrow).symm.trans bytes
      rw [chars, List.length_cons] at length
      exact Or.inr ⟨digits, chars, by omega, accepted.2⟩
    · cases read
  · have unsigned : ∀ digits, line.toList ≠ '+' :: digits :=
      fun digits chars => signed ⟨digits, chars⟩
    rw [readBinaryWord?_of_unsigned unsigned] at read
    split at read
    · rename_i accepted
      simp only [Bool.and_eq_true, Bool.not_eq_true', List.all_eq_true, binaryDigit_iff] at accepted
      have length := (utf8ByteSize_of_narrow fun c member => BinaryDigit.utf8Size (accepted.2 c member)).symm.trans
        bytes
      exact Or.inl ⟨length, accepted.2⟩
    · cases read

theorem BinaryLine.ne_empty {line : String} (shape : BinaryLine line) : line ≠ "" := by
  rintro rfl
  rcases shape with ⟨length, -⟩ | ⟨digits, chars, -⟩
  · cases length
  · cases chars

/-! ### A whole text -/

/-- A raw line the loader takes: blank once trimmed, or trimmed to sixteen binary digits or a
plus sign and fifteen. -/
def TakenLine (raw : String) : Prop :=
  (trim raw).isEmpty = true ∨ BinaryLine (trim raw)

/-- What a line the loader takes gives: nothing when blank, else its word. -/
def lineRead (raw : String) : Option UInt16 :=
  if (trim raw).isEmpty then none else some (lineWord (trim raw))

theorem readWordLine_of_taken {raw : String} (taken : TakenLine raw) (index : Nat) :
    readWordLine index raw = .ok (lineRead raw) := by
  unfold readWordLine lineRead
  rcases taken with blank | shape
  · simp only [blank, if_true]
  · have filled : (trim raw).isEmpty = false := String.isEmpty_eq_false_iff.mpr shape.ne_empty
    obtain ⟨bytes, read⟩ := shape.read
    simp only [filled, Bool.false_eq_true, if_false, bytes, ne_eq, not_true_eq_false, read]

theorem taken_of_readWordLine {raw : String} {index : Nat} {result : Option UInt16}
    (read : readWordLine index raw = .ok result) : TakenLine raw := by
  unfold readWordLine at read
  by_cases blank : (trim raw).isEmpty = true
  · exact Or.inl blank
  · rw [if_neg blank] at read
    split at read
    · cases read
    · rename_i bytes
      split at read
      · rename_i w found
        exact Or.inr (binaryLine_of_read (Decidable.of_not_not bytes) found)
      · cases read

/-- Numbered lines that the loader all takes read as what each gives. -/
theorem mapM_readWordLine_of_taken (ls : List String) (start : Nat)
    (taken : ∀ raw ∈ ls, TakenLine raw) :
    (ls.zipIdx start).mapM (fun p => readWordLine p.2 p.1) = .ok (ls.map lineRead) := by
  induction ls generalizing start with
  | nil => rfl
  | cons raw rest ih =>
    rw [List.zipIdx_cons, List.mapM_cons, readWordLine_of_taken (taken raw List.mem_cons_self),
      ih _ fun other member => taken other (List.mem_cons_of_mem raw member)]
    rfl

/-- Numbered lines read without error are lines the loader takes. -/
theorem taken_of_mapM_readWordLine (ls : List String) (start : Nat) {words : List (Option UInt16)}
    (read : (ls.zipIdx start).mapM (fun p => readWordLine p.2 p.1) = .ok words) :
    ∀ raw ∈ ls, TakenLine raw := by
  induction ls generalizing start words with
  | nil => simp
  | cons raw rest ih =>
    rw [List.zipIdx_cons, List.mapM_cons] at read
    obtain ⟨first, readFirst, afterFirst⟩ := Vm.bind_eq_ok read
    obtain ⟨others, readRest, -⟩ := Vm.bind_eq_ok afterFirst
    intro other member
    rcases List.mem_cons.mp member with rfl | inner
    · exact taken_of_readWordLine readFirst
    · exact ih _ readRest other inner

theorem readWords_eq (text : String) :
    readWords text =
      ((lines text).zipIdx.mapM fun p => readWordLine p.2 p.1).map List.reduceOption :=
  rfl

theorem forall_wordLines_iff (text : String) :
    (∀ line ∈ wordLines text, BinaryLine line) ↔ ∀ raw ∈ lines text, TakenLine raw := by
  simp only [wordLines, List.mem_filterMap]
  constructor
  · intro shapes raw member
    by_cases blank : (trim raw).isEmpty = true
    · exact Or.inl blank
    · exact Or.inr (shapes _ ⟨raw, member, by simp [blank]⟩)
  · rintro taken line ⟨raw, member, kept⟩
    split at kept
    · cases kept
    · rename_i filled
      cases kept
      exact (taken raw member).resolve_left filled

theorem reduceOption_map_lineRead (text : String) :
    ((lines text).map lineRead).reduceOption = (wordLines text).map lineWord := by
  show List.filterMap id _ = _
  rw [List.filterMap_map, wordLines, List.map_filterMap]
  apply List.filterMap_congr
  intro raw _
  simp only [Function.comp_apply, id, lineRead]
  split <;> rfl

/-- A text whose lines the loader all takes reads as the words of its non-blank lines. -/
theorem readWords_of_binaryLines {text : String} (shapes : ∀ line ∈ wordLines text, BinaryLine line) :
    readWords text = .ok ((wordLines text).map lineWord) := by
  rw [readWords_eq, mapM_readWordLine_of_taken _ _ ((forall_wordLines_iff text).mp shapes)]
  exact congrArg Except.ok (reduceOption_map_lineRead text)

theorem binaryLines_of_readWords {text : String} {words : List UInt16}
    (read : readWords text = .ok words) :
    (∀ line ∈ wordLines text, BinaryLine line) ∧ words = (wordLines text).map lineWord := by
  rw [readWords_eq] at read
  obtain ⟨numbered, readLines, -⟩ := Vm.map_eq_ok read
  have shapes := (forall_wordLines_iff text).mpr (taken_of_mapM_readWordLine _ _ readLines)
  have both := readWords_of_binaryLines shapes
  rw [readWords_eq, read] at both
  exact ⟨shapes, Except.ok.inj both⟩

/-! ### Words through their text -/

theorem binaryLine_binary16 (w : UInt16) : BinaryLine (binary16 w) :=
  Or.inl ⟨length_binary16 w, fun _ member => binaryDigit_of_mem_binary16 member⟩

theorem lineWord_binary16 (w : UInt16) : lineWord (binary16 w) = w := by
  have unsigned : ∀ digits, (binary16 w).toList ≠ '+' :: digits := by
    intro digits signed
    rcases binaryDigit_of_mem_binary16 (signed ▸ List.mem_cons_self) with bad | bad <;> cases bad
  rw [lineWord, canonicalLine_of_unsigned unsigned, digitsValue_binary16, Nat.toUInt16_eq,
    UInt16.ofNat_toNat]

theorem wordLines_hackText (words : List UInt16) :
    wordLines (Asm.hackText words) = words.map binary16 := by
  have filled : ∀ w, binary16 w ≠ "" := fun w => (binaryLine_binary16 w).ne_empty
  rw [wordLines, lines_hackText, List.filterMap_map]
  simp [filled, trim_binary16]

theorem loadRom_toArray (m : Machine) (words : List UInt16) :
    m.loadRom words.toArray =
      if fits : words.toArray.size ≤ romCapacity then .ok (m.withRom words.toArray fits)
      else .error (.romOverflow words.length romCapacity) := by
  unfold Machine.loadRom
  by_cases fits : words.toArray.size ≤ romCapacity
  · rw [dif_neg (by omega), dif_pos fits]
  · rw [dif_pos (by omega), dif_neg fits, List.size_toArray]

/-- The binary text of a list of words loads back as those words exactly when they fit the ROM. -/
theorem loadRomText_hackText (m : Machine) (words : List UInt16) :
    m.loadRomText (Asm.hackText words) =
      if fits : words.toArray.size ≤ romCapacity then .ok (m.withRom words.toArray fits)
      else .error (.romOverflow words.length romCapacity) := by
  have read : readWords (Asm.hackText words) = .ok words := by
    rw [readWords_of_binaryLines, wordLines_hackText, List.map_map]
    · simp [Function.comp_def, lineWord_binary16]
    · intro line member
      rw [wordLines_hackText] at member
      obtain ⟨w, -, rfl⟩ := List.mem_map.mp member
      exact binaryLine_binary16 w
  rw [Machine.loadRomText, read, Vm.ok_bind, loadRom_toArray]

/-- What a load that succeeds did: every non-blank trimmed line has the loader's shape, they fit
the ROM, and the ROM, and nothing else, now holds their words. -/
theorem loadRomText_eq_ok {m loaded : Machine} {text : String}
    (success : m.loadRomText text = .ok loaded) :
    (∀ line ∈ wordLines text, BinaryLine line) ∧ (wordLines text).length ≤ romCapacity ∧
      loaded.rom = ((wordLines text).map lineWord).toArray ∧
      loaded = m.withRom loaded.rom loaded.rom_size_le := by
  obtain ⟨words, read, placed⟩ := Vm.bind_eq_ok success
  obtain ⟨shapes, rfl⟩ := binaryLines_of_readWords read
  rw [loadRom_toArray] at placed
  split at placed
  · rename_i fits
    cases placed
    exact ⟨shapes, by simpa using fits, rfl, rfl⟩
  · cases placed

/-- A text loads exactly when each non-blank trimmed line is sixteen binary digits or a plus sign
and fifteen, and there are no more of them than the ROM holds. -/
theorem loadRomText_ok_iff (m : Machine) (text : String) :
    (∃ loaded, m.loadRomText text = .ok loaded) ↔
      (∀ line ∈ wordLines text, BinaryLine line) ∧ (wordLines text).length ≤ romCapacity := by
  constructor
  · rintro ⟨loaded, success⟩
    obtain ⟨shapes, fits, -⟩ := loadRomText_eq_ok success
    exact ⟨shapes, fits⟩
  · rintro ⟨shapes, fits⟩
    have sized : (((wordLines text).map lineWord).toArray).size ≤ romCapacity := by
      simpa using fits
    refine ⟨m.withRom _ sized, ?_⟩
    rw [Machine.loadRomText, readWords_of_binaryLines shapes, Vm.ok_bind, loadRom_toArray,
      dif_pos sized]

/-- The binary text of what a text loads is its non-blank trimmed lines with a leading plus sign
read as `0`, each followed by a line feed. -/
theorem hackText_of_loadRomText {m loaded : Machine} {text : String}
    (success : m.loadRomText text = .ok loaded) :
    Asm.hackText loaded.rom.toList =
      String.join ((wordLines text).map fun line => canonicalLine line ++ "\n") := by
  obtain ⟨shapes, -, rom, -⟩ := loadRomText_eq_ok success
  simp only [rom, Asm.hackText, List.toList_toArray, List.map_map]
  apply congrArg String.join
  apply List.map_congr_left
  intro line member
  simp [binary16_lineWord (shapes line member)]

-- a plus sign and fifteen binary digits are no sixteen-digit word, yet the line loads, as the
-- word 1, and the binary text of what it loads has a `0` where the line had the sign
example : ({} : Machine).loadRomText "+000000000000001\n" = .ok { rom := #[1] } := rfl

example : Asm.hackText [1] = "0000000000000001\n" := by decide

/-- Without a leading plus sign, a line the loader takes is sixteen binary digits, and is its own
canonical form. -/
theorem binaryLine_iff_of_unsigned {line : String} (unsigned : ∀ digits, line.toList ≠ '+' :: digits) :
    BinaryLine line ↔ line.toList.length = 16 ∧ ∀ c ∈ line.toList, BinaryDigit c := by
  constructor
  · rintro (plain | ⟨digits, signed, -⟩)
    · exact plain
    · exact absurd signed (unsigned digits)
  · exact Or.inl

/-- Binary text round-trips wherever no line opens with a plus sign. The binary text of a list of
words loads back as those words exactly when they fit the ROM, and otherwise fails for the ROM's
size. A text none of whose non-blank trimmed lines opens with a plus sign loads exactly when those
lines are sixteen binary digits each and fit the ROM; the load replaces the ROM and nothing else,
and the binary text of what it loads is those lines, each followed by a line feed. -/
theorem binaryText_format (m : Machine) (words : List UInt16) (text : String)
    (unsigned : ∀ line ∈ wordLines text, ∀ digits, line.toList ≠ '+' :: digits) :
    m.loadRomText (Asm.hackText words) =
        (if fits : words.toArray.size ≤ romCapacity then .ok (m.withRom words.toArray fits)
        else .error (.romOverflow words.length romCapacity)) ∧
    ((∃ loaded, m.loadRomText text = .ok loaded) ↔
      (∀ line ∈ wordLines text, line.toList.length = 16 ∧ ∀ c ∈ line.toList, BinaryDigit c) ∧
        (wordLines text).length ≤ romCapacity) ∧
    (∀ loaded, m.loadRomText text = .ok loaded →
      loaded = m.withRom loaded.rom loaded.rom_size_le ∧
        Asm.hackText loaded.rom.toList = String.join ((wordLines text).map (· ++ "\n"))) := by
  have shapes : (∀ line ∈ wordLines text, BinaryLine line) ↔
      ∀ line ∈ wordLines text, line.toList.length = 16 ∧ ∀ c ∈ line.toList, BinaryDigit c :=
    forall_congr' fun line => imp_congr_right fun member =>
      binaryLine_iff_of_unsigned (unsigned line member)
  refine ⟨loadRomText_hackText m words, by rw [loadRomText_ok_iff, shapes], ?_⟩
  intro loaded success
  obtain ⟨-, -, -, replaced⟩ := loadRomText_eq_ok success
  refine ⟨replaced, ?_⟩
  rw [hackText_of_loadRomText success]
  apply congrArg String.join
  apply List.map_congr_left
  intro line member
  rw [canonicalLine_of_unsigned (unsigned line member)]

/-- Two words, with a blank line between them and blanks around the second, load and print back
as their two lines. -/
theorem two_words_format :
    (∀ line ∈ wordLines "0000000000000101\n\n  1110110111101000 \n", ∀ digits,
      line.toList ≠ '+' :: digits) ∧
    ({} : Machine).loadRomText "0000000000000101\n\n  1110110111101000 \n" =
      .ok { rom := #[5, 60904] } ∧
    Asm.hackText [5, 60904] =
      String.join ((wordLines "0000000000000101\n\n  1110110111101000 \n").map (· ++ "\n")) := by
  have lines : wordLines "0000000000000101\n\n  1110110111101000 \n" =
      ["0000000000000101", "1110110111101000"] := by decide
  have unsigned : ∀ line ∈ wordLines "0000000000000101\n\n  1110110111101000 \n", ∀ digits,
      line.toList ≠ '+' :: digits := by
    have heads : ∀ line ∈ ["0000000000000101", "1110110111101000"], line.toList.head? ≠ some '+' := by
      decide
    intro line member digits signed
    rw [lines] at member
    exact heads line member (by rw [signed]; rfl)
  have success : ({} : Machine).loadRomText "0000000000000101\n\n  1110110111101000 \n" =
      .ok { rom := #[5, 60904] } := rfl
  exact ⟨unsigned, success, ((binaryText_format {} [] _ unsigned).2.2 _ success).2⟩

end Hack
