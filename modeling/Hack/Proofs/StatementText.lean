import Hack.Proofs.EmittedText
/-! The statement each emitted line reads back as. -/

set_option autoImplicit false

namespace Hack.Text

theorem splitAtChar_of_not_mem {sep : Char} {cs : List Char} (absent : sep ∉ cs) :
    splitAtChar sep cs = none := by
  induction cs with
  | nil => rfl
  | cons c rest ih =>
    have differ : c ≠ sep := fun same => absent (same ▸ List.mem_cons_self)
    rw [splitAtChar, if_neg differ, ih (fun member => absent (List.mem_cons_of_mem c member))]
    rfl

theorem splitAtChar_append_cons {sep : Char} {before : List Char} (after : List Char)
    (absent : sep ∉ before) : splitAtChar sep (before ++ sep :: after) = some (before, after) := by
  induction before with
  | nil => simp [splitAtChar]
  | cons c rest ih =>
    have differ : c ≠ sep := fun same => absent (same ▸ List.mem_cons_self)
    rw [List.cons_append, splitAtChar, if_neg differ,
      ih (fun member => absent (List.mem_cons_of_mem c member))]
    rfl

theorem firstIndex_of_not_mem {sep : Char} {cs : List Char} (absent : sep ∉ cs) :
    firstIndex sep cs = none := by
  rw [firstIndex, List.findIdx?_eq_none_iff]
  intro c member
  simpa using fun same : c = sep => absent (same ▸ member)

theorem firstIndex_append_of_not_mem {sep : Char} {before : List Char} (after : List Char)
    (absent : sep ∉ before) :
    firstIndex sep (before ++ after) = (firstIndex sep after).map (· + before.length) := by
  have none : before.findIdx? (· == sep) = none := firstIndex_of_not_mem absent
  rw [firstIndex, List.findIdx?_append, none, Option.none_or]
  rfl

theorem firstIndex_append_cons {sep : Char} {before : List Char} (after : List Char)
    (absent : sep ∉ before) : firstIndex sep (before ++ sep :: after) = some before.length := by
  rw [firstIndex_append_of_not_mem _ absent, firstIndex, List.findIdx?_cons]
  simp

/-- A separator found after a part that lacks it stands at or after the part's end. -/
theorem length_le_of_firstIndex {sep : Char} {before after : List Char} {i : Nat}
    (absent : sep ∉ before) (found : firstIndex sep (before ++ after) = some i) :
    before.length ≤ i := by
  rw [firstIndex_append_of_not_mem _ absent, Option.map_eq_some_iff] at found
  obtain ⟨j, -, rfl⟩ := found
  omega

theorem beforeComment_append_comment {code : List Char} (noSlash : '/' ∉ code)
    (rest : List Char) : beforeComment (code ++ '/' :: '/' :: rest) = code := by
  induction code with
  | nil => rfl
  | cons c cs ih =>
    have notSlash : c ≠ '/' := fun same => noSlash (same ▸ List.mem_cons_self)
    rw [List.cons_append, beforeComment.eq_3 _ _ (fun _ same _ => notSlash same),
      ih (fun slash => noSlash (List.mem_cons_of_mem c slash))]

/-- The value of a number's decimal digits is the number. -/
theorem digitsValue_toDigits (n : Nat) : digitsValue 10 (Nat.toDigits 10 n) = n := by
  have folds : digitsValue 10 (Nat.toDigits 10 n) = Nat.ofDigitChars 10 (Nat.toDigits 10 n) 0 := by
    simp only [digitsValue, Nat.ofDigitChars, Nat.mul_comm]
  rw [folds, Nat.ofDigitChars_ten_toDigits]

theorem isDigits_toDigits (n : Nat) : isDigits (Nat.toDigits 10 n) = true := by
  simp only [isDigits, Bool.and_eq_true, Bool.not_eq_true', List.isEmpty_eq_false_iff,
    List.all_eq_true]
  exact ⟨Nat.toDigits_ne_nil, fun c member => Nat.isDigit_of_mem_toDigits (by decide) (by decide)
    member⟩

end Hack.Text

namespace Hack

theorem isDigit_of_isSymbolStart {c : Char} (start : isSymbolStart c = true) : c.isDigit = false := by
  have alpha : c.isAlpha = ((decide (c.val ≥ 'A'.val ∧ c.val ≤ 'Z'.val)) ||
      (c.val ≥ 'a'.val && c.val ≤ 'z'.val)) := rfl
  simp only [isSymbolStart, alpha, Bool.or_eq_true, Bool.and_eq_true, decide_eq_true_eq,
    beq_iff_eq, UInt32.le_iff_toNat_le, Char.reduceVal, UInt32.reduceToNat] at start
  simp only [Char.isDigit, Bool.and_eq_false_iff, decide_eq_false_iff_not, UInt32.le_iff_toNat_le,
    Char.reduceVal, UInt32.reduceToNat]
  rcases start with ((((letter | letter) | rfl) | rfl) | rfl) | rfl
  · omega
  · omega
  all_goals decide

/-- A symbol is never read as a number. -/
theorem isDigits_of_isSymbol {text : String} (symbol : isSymbol text = true) :
    Text.isDigits text.toList = false := by
  unfold isSymbol at symbol
  cases chars : text.toList with
  | nil => rw [chars] at symbol; cases symbol
  | cons c rest =>
    rw [chars, isSymbolChars, Bool.and_eq_true] at symbol
    simp [Text.isDigits, isDigit_of_isSymbolStart symbol.1]

/-! ### Mnemonics -/

/-- What a mnemonic never holds: the signs that split a compute instruction, a comment's slash,
the sign of a load, or a blank. -/
def PlainChar (c : Char) : Prop :=
  c ≠ '=' ∧ c ≠ ';' ∧ c ≠ '/' ∧ c ≠ '@' ∧ Text.isBlank c = false

instance : DecidablePred PlainChar := fun c => by unfold PlainChar; infer_instance

/-- A text of plain characters only. -/
def PlainText (text : String) : Prop :=
  ∀ c ∈ text.toList, PlainChar c

-- decided along the text's characters, never by running through every character
instance : DecidablePred PlainText :=
  fun text => List.decidableBAll PlainChar text.toList

theorem plainChar_mnemonic_dest (dest : Dest) : PlainText dest.mnemonic := by
  obtain ⟨a, d, m⟩ := dest
  cases a <;> cases d <;> cases m <;> decide

theorem plainChar_mnemonic_jump (jump : Jump) : PlainText jump.mnemonic := by
  obtain ⟨lt, eq, gt⟩ := jump
  cases lt <;> cases eq <;> cases gt <;> decide

theorem plainChar_mnemonic_comp (comp : Comp) : PlainText comp.mnemonic := by
  cases comp <;> decide

theorem mnemonic_comp_ne_nil (comp : Comp) : comp.mnemonic.toList ≠ [] := by
  cases comp <;> decide

theorem mnemonic_dest_of_isNull {dest : Dest} (null : dest.isNull = true) : dest.mnemonic = "" := by
  obtain ⟨a, d, m⟩ := dest
  cases a <;> cases d <;> cases m <;> first | rfl | cases null

theorem mnemonic_jump_of_isNull {jump : Jump} (null : jump.isNull = true) : jump.mnemonic = "" := by
  obtain ⟨lt, eq, gt⟩ := jump
  cases lt <;> cases eq <;> cases gt <;> first | rfl | cases null

end Hack

namespace Hack.Asm

open Text

section Compute

variable (dest : Dest) (comp : Comp) (jump : Jump)

/-- The part of a compute instruction before its computation. -/
def destPart : List Char := if dest.isNull then [] else dest.mnemonic.toList ++ ['=']

/-- The part of a compute instruction after its computation. -/
def jumpPart : List Char := if jump.isNull then [] else ';' :: jump.mnemonic.toList

theorem text_compute_toList : (Inst.compute dest comp jump).text.toList =
    destPart dest ++ (comp.mnemonic.toList ++ jumpPart jump) := by
  simp only [Inst.text, destPart, jumpPart]
  split <;> split <;> simp

theorem not_mem_destPart : ';' ∉ destPart dest := by
  unfold destPart
  split
  · simp
  · simp only [List.mem_append, List.mem_singleton, not_or]
    exact ⟨fun member => (plainChar_mnemonic_dest dest _ member).2.1 rfl, by decide⟩

theorem not_mem_jumpPart : '=' ∉ jumpPart jump := by
  unfold jumpPart
  split
  · simp
  · simp only [List.mem_cons, not_or]
    exact ⟨by decide, fun member => (plainChar_mnemonic_jump jump _ member).1 rfl⟩

/-- Splitting at the first `=` finds the destination, empty when none is written. -/
theorem splitAtChar_destPart {rest : List Char} (absent : '=' ∉ rest) :
    (splitAtChar '=' (destPart dest ++ rest)).getD ([], destPart dest ++ rest) =
      (dest.mnemonic.toList, rest) := by
  unfold destPart
  split
  · rename_i null
    rw [List.nil_append, splitAtChar_of_not_mem absent, mnemonic_dest_of_isNull null]
    rfl
  · rw [List.append_assoc, List.singleton_append,
      splitAtChar_append_cons _ (fun member => (plainChar_mnemonic_dest dest _ member).1 rfl)]
    rfl

/-- Splitting at the first `;` finds the computation and the jump, empty when none is written. -/
theorem splitAtChar_jumpPart :
    (splitAtChar ';' (comp.mnemonic.toList ++ jumpPart jump)).getD
        (comp.mnemonic.toList ++ jumpPart jump, []) = (comp.mnemonic.toList, jump.mnemonic.toList) := by
  have noSemi : ';' ∉ comp.mnemonic.toList := fun member =>
    (plainChar_mnemonic_comp comp _ member).2.1 rfl
  unfold jumpPart
  split
  · rename_i null
    rw [List.append_nil, splitAtChar_of_not_mem noSemi, mnemonic_jump_of_isNull null]
    rfl
  · rw [splitAtChar_append_cons _ noSemi]
    rfl

theorem parseParts_text :
    parseCompute.parseParts (Inst.compute dest comp jump).text.toList = .ok (.compute dest comp jump) := by
  have noEq : '=' ∉ comp.mnemonic.toList ++ jumpPart jump := by
    simpa using ⟨fun member => (plainChar_mnemonic_comp comp _ member).1 rfl, not_mem_jumpPart jump⟩
  simp only [parseCompute.parseParts, text_compute_toList, splitAtChar_destPart dest noEq,
    splitAtChar_jumpPart, String.ofList_toList, Dest.ofMnemonic?_mnemonic,
    Comp.ofMnemonic?_mnemonic, Jump.ofMnemonic?_mnemonic]

/-- A compute instruction's first `=` stands before its first `;`. -/
theorem firstIndex_text_ordered {eq semi : Nat}
    (atEq : firstIndex '=' (Inst.compute dest comp jump).text.toList = some eq)
    (atSemi : firstIndex ';' (Inst.compute dest comp jump).text.toList = some semi) : eq ≤ semi := by
  rw [text_compute_toList] at atEq atSemi
  have after := length_le_of_firstIndex (not_mem_destPart dest) atSemi
  unfold destPart at atEq after
  split at atEq
  · rw [List.nil_append, firstIndex_of_not_mem] at atEq
    · cases atEq
    · simpa using ⟨fun member => (plainChar_mnemonic_comp comp _ member).1 rfl, not_mem_jumpPart jump⟩
  · rename_i notNull
    rw [if_neg notNull, List.length_append, List.length_singleton] at after
    rw [List.append_assoc, List.singleton_append,
      firstIndex_append_cons _ (fun member => (plainChar_mnemonic_dest dest _ member).1 rfl)] at atEq
    cases atEq
    omega

/-- A compute instruction's text reads back as the instruction. -/
theorem parseCompute_text :
    parseCompute (Inst.compute dest comp jump).text.toList = .ok (.compute dest comp jump) := by
  unfold parseCompute
  split
  · rename_i eq semi atEq atSemi
    rw [if_neg (Nat.not_lt.mpr (firstIndex_text_ordered dest comp jump atEq atSemi)),
      parseParts_text]
  · exact parseParts_text dest comp jump

/-- Every character of a compute instruction's text is code: no slash, no `@`, no blank. -/
theorem codeChar_text_compute :
    ∀ c ∈ (Inst.compute dest comp jump).text.toList, c ≠ '/' ∧ c ≠ '@' ∧ isBlank c = false := by
  have mnemonic : ∀ {c}, PlainChar c → c ≠ '/' ∧ c ≠ '@' ∧ isBlank c = false :=
    fun plain => plain.2.2
  intro c member
  rw [text_compute_toList] at member
  simp only [destPart, jumpPart, List.mem_append] at member
  rcases member with inDest | inComp | inJump
  · split at inDest
    · cases inDest
    · rcases List.mem_append.mp inDest with inner | sign
      · exact mnemonic (plainChar_mnemonic_dest dest c inner)
      · rw [List.mem_singleton.mp sign]
        decide
  · exact mnemonic (plainChar_mnemonic_comp comp c inComp)
  · split at inJump
    · cases inJump
    · rcases List.mem_cons.mp inJump with rfl | inner
      · decide
      · exact mnemonic (plainChar_mnemonic_jump jump c inner)

end Compute

/-! ### Reading a line by its code -/

theorem Stmt.parse_of_loadCode {raw : String} {operand : List Char} (pc : UInt16)
    (code : lineCode raw = '@' :: operand) :
    Stmt.parse raw pc = (Operand.parse (String.ofList operand)).map fun o => some (.load o) := by
  unfold Stmt.parse
  rw [code]
  rfl

theorem Stmt.parse_of_computeCode {raw : String} {c : Char} {rest : List Char} (pc : UInt16)
    (code : lineCode raw = c :: rest) (notLoad : c ≠ '@') (notLabel : c ≠ '(') :
    Stmt.parse raw pc = (parseCompute (c :: rest)).map some := by
  unfold Stmt.parse
  rw [code]
  split
  · rename_i shape
    cases shape
  · rename_i shape
    cases shape
    exact absurd rfl notLoad
  · rename_i shape
    cases shape
    exact absurd rfl notLabel
  · rfl

theorem Operand.parse_toString {n : Nat} (fits : n ≤ addressMax) :
    Operand.parse (toString n) = .ok (.literal n.toUInt16) := by
  have chars : (toString n).toList = Nat.toDigits 10 n := by
    rw [Nat.toString_eq_repr, Nat.toList_repr]
  simp only [Operand.parse, chars, isDigits_toDigits, digitsValue_toDigits, if_pos fits, if_true]

theorem Operand.parse_of_isSymbol {text : String} (symbol : isSymbol text = true) :
    Operand.parse text = .ok (.symbol text) := by
  simp [Operand.parse, isDigits_of_isSymbol symbol, symbol]

end Hack.Asm

namespace Hack.Vm

open Asm

/-- The statement an instruction is. -/
def Instr.stmt : Instr → Stmt
  | .load (.number n) => .load (.literal n.toUInt16)
  | .load (.name s) => .load (.symbol s)
  | .compute dest comp jump => .compute dest comp jump

/-- The statement a piece is, a label bound to the word `pc`; a comment is none. -/
def Piece.stmt (pc : UInt16) : Piece → Option Stmt
  | .instr i => some i.stmt
  | .label name => some (.label name pc)
  | .comment _ => none

/-- A piece whose line the assembler reads back as its statement: a loaded number fits the
fifteen bits of a load, a loaded name and a label are symbols, a comment stays on its line. -/
def Piece.Sound : Piece → Prop
  | .instr (.load (.number n)) => n ≤ addressMax
  | .instr (.load (.name s)) => isSymbol s = true
  | .instr (.compute ..) => True
  | .label name => isSymbol name = true
  | .comment text => Text.OneLine text

/-- The text of a sound instruction is code: it starts with neither `(` nor a blank, holds no
slash and no blank. -/
theorem Instr.text_code {i : Instr} (sound : (Piece.instr i).Sound) :
    ∃ c rest, i.text.toList = c :: rest ∧ c ≠ '(' ∧
      ∀ d ∈ i.text.toList, d ≠ '/' ∧ Text.isBlank d = false := by
  have symbolChar : ∀ {d}, isSymbolChar d = true → d ≠ '/' ∧ Text.isBlank d = false := by
    intro d symbol
    obtain ⟨-, -, -, -, slash, blank⟩ := isSymbolChar_plain symbol
    exact ⟨slash, blank⟩
  have load : ∀ (s : String), SymbolChars s →
      ∀ d ∈ ('@' :: s.toList), d ≠ '/' ∧ Text.isBlank d = false := by
    intro s chars d member
    rcases List.mem_cons.mp member with rfl | inner
    · decide
    · exact symbolChar (chars d inner)
  cases i with
  | load address =>
    cases address with
    | number n =>
      have chars : (Instr.load (.number n)).text.toList = '@' :: (toString n).toList := by
        simp [Instr.text]
      exact ⟨'@', _, chars, by decide, chars ▸ load _ (symbolChars_toString n)⟩
    | name s =>
      have chars : (Instr.load (.name s)).text.toList = '@' :: s.toList := by
        simp [Instr.text]
      exact ⟨'@', _, chars, by decide,
        chars ▸ load _ (symbolChars_of_isSymbol (show isSymbol s = true from sound))⟩
  | compute dest comp jump =>
    have code := codeChar_text_compute dest comp jump
    -- the computation's mnemonic is never empty, so neither is the text
    have filled : (Instr.compute dest comp jump).text.toList ≠ [] := by
      intro empty
      have parts : destPart dest = [] ∧ comp.mnemonic = "" ∧ jumpPart jump = [] := by
        simpa [Instr.text, text_compute_toList] using empty
      exact mnemonic_comp_ne_nil comp (by rw [parts.2.1]; rfl)
    obtain ⟨c, rest, chars⟩ := List.exists_cons_of_ne_nil filled
    have notLabel : c ≠ '(' :=
      (inline_text_compute dest comp jump c (by simp [Instr.text] at chars ⊢; simp [chars])).2.2
    exact ⟨c, rest, chars, notLabel, fun d member => ⟨(code d member).1, (code d member).2.2⟩⟩

/-- A sound piece is read as written, so what the emitter's lines define is known. -/
theorem Piece.Sound.clean {p : Piece} (sound : p.Sound) : p.Clean := by
  cases p with
  | instr i =>
    cases i with
    | load address =>
      cases address with
      | number n =>
        show Text.Inline ("@" ++ toString n)
        exact Text.inline_append.mpr ⟨by decide, Text.inline_toString n⟩
      | name s =>
        show Text.Inline ("@" ++ s)
        exact Text.inline_append.mpr ⟨by decide, inline_of_isSymbol (show isSymbol s = true from sound)⟩
    | compute dest comp jump => exact inline_text_compute dest comp jump
  | label name => exact sound
  | comment text => exact sound

/-- The code of an instruction line is the instruction's text, annotated or not. -/
theorem lineCode_instr {i : Instr} (sound : (Piece.instr i).Sound) (annotate : Bool) (index : Nat) :
    lineCode ((Piece.instr i).line annotate index) = i.text.toList := by
  obtain ⟨-, -, -, -, code⟩ := Instr.text_code sound
  have text : (i.text.toList.filter fun c => !Text.isBlank c) = i.text.toList :=
    List.filter_eq_self.mpr fun c member => by simp [(code c member).2]
  have blanks : ∀ n, ((List.replicate n ' ').filter fun c => !Text.isBlank c) = [] := by
    intro n
    rw [List.filter_eq_nil_iff]
    intro c member
    rw [(List.mem_replicate.mp member).2]
    decide
  have noSlash : ∀ n, '/' ∉ List.replicate n ' ' := by
    intro n member
    have space := (List.mem_replicate.mp member).2
    revert space
    decide
  have indent : ("    " : String).toList = List.replicate 4 ' ' := rfl
  rw [Piece.line, lineCode]
  split
  · -- the annotation stands behind the comment sign, after the padding
    have chars : ("    " ++ Text.padRight 24 ' ' i.text ++ "// " ++ toString index).toList =
        (List.replicate 4 ' ' ++ i.text.toList ++ List.replicate (24 - i.text.length) ' ') ++
          '/' :: '/' :: ' ' :: (toString index).toList := by
      simp [Text.padRight, indent]
    rw [chars, Text.beforeComment_append_comment, List.filter_append, List.filter_append, blanks,
      text, blanks, List.nil_append, List.append_nil]
    simp only [List.mem_append, not_or]
    exact ⟨⟨noSlash 4, fun slash => (code _ slash).1 rfl⟩, noSlash _⟩
  · have chars : ("    " ++ i.text).toList = List.replicate 4 ' ' ++ i.text.toList := by
      simp [indent]
    rw [chars, Text.beforeComment_of_no_slash, List.filter_append, blanks, text, List.nil_append]
    simp only [List.mem_append, not_or]
    exact ⟨noSlash 4, fun slash => (code _ slash).1 rfl⟩

/-- The code of a piece's line does not depend on the annotation. -/
theorem Piece.lineCode_line {p : Piece} (sound : p.Sound) (annotate : Bool) (index : Nat) :
    lineCode (p.line annotate index) = lineCode (p.line false 0) := by
  cases p with
  | instr i => rw [lineCode_instr sound, lineCode_instr sound]
  | label name => rfl
  | comment text => rfl

/-- A piece's line reads back as the piece's statement, whatever its annotation. -/
theorem Piece.parse_line {p : Piece} (sound : p.Sound) (annotate : Bool) (index : Nat)
    (pc : UInt16) : Stmt.parse (p.line annotate index) pc = .ok (p.stmt pc) := by
  cases p with
  | instr i =>
    have code := lineCode_instr sound annotate index
    cases i with
    | load address =>
      cases address with
      | number n =>
        have fits : n ≤ addressMax := sound
        have load : lineCode ((Piece.instr (.load (.number n))).line annotate index) =
            '@' :: (toString n).toList := by
          rw [code]
          simp [Instr.text]
        rw [Stmt.parse_of_loadCode pc load, String.ofList_toList, Operand.parse_toString fits]
        rfl
      | name s =>
        have symbol : isSymbol s = true := sound
        have load : lineCode ((Piece.instr (.load (.name s))).line annotate index) = '@' :: s.toList := by
          rw [code]
          simp [Instr.text]
        rw [Stmt.parse_of_loadCode pc load, String.ofList_toList, Operand.parse_of_isSymbol symbol]
        rfl
    | compute dest comp jump =>
      obtain ⟨c, rest, chars, notLabel, -⟩ := Instr.text_code sound
      have text : (Instr.compute dest comp jump).text = (Inst.compute dest comp jump).text := rfl
      have notLoad : c ≠ '@' := by
        refine (codeChar_text_compute dest comp jump c ?_).2.1
        rw [← text, chars]
        exact List.mem_cons_self
      rw [Stmt.parse_of_computeCode pc (code.trans chars) notLoad notLabel, ← chars, text,
        parseCompute_text]
      rfl
  | label name => exact Stmt.parse_of_labelCode pc (lineCode_label sound) sound
  | comment text => simp [Piece.line, Piece.stmt, Stmt.parse, lineCode_comment]

theorem isInstCode_cons {c : Char} (rest : List Char) (notLabel : c ≠ '(') :
    isInstCode (c :: rest) = true := by
  unfold isInstCode
  split
  · rename_i shape
    cases shape
  · rename_i shape
    cases shape
    exact absurd rfl notLabel
  · rfl

/-- The assembler counts a piece's line as a word exactly when the piece takes one. -/
theorem Piece.isInstCode_line {p : Piece} (sound : p.Sound) (annotate : Bool) (index : Nat) :
    (isInstCode (lineCode (p.line annotate index))).toNat = p.width := by
  cases p with
  | instr i =>
    obtain ⟨c, rest, chars, notLabel, -⟩ := Instr.text_code sound
    rw [lineCode_instr sound, chars, isInstCode_cons rest notLabel]
    rfl
  | label name =>
    rw [Piece.line, lineCode_label sound]
    rfl
  | comment text =>
    rw [Piece.line, lineCode_comment]
    rfl

end Hack.Vm
