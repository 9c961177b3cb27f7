import Hack.Proofs.Naming
import Hack.Proofs.AsmLabels
/-! What the assembler reads back from emitted code: each piece on its own line, and the labels it
defines in order. -/

set_option autoImplicit false

namespace Hack.Text

/-- A text that stays on one line and opens no label. -/
def Inline (text : String) : Prop :=
  ∀ c ∈ text.toList, c ≠ '\n' ∧ c ≠ '\r' ∧ c ≠ '('

-- decided along the text's characters, never by running through every character
instance : DecidablePred Inline :=
  fun text => List.decidableBAll (fun c => c ≠ '\n' ∧ c ≠ '\r' ∧ c ≠ '(') text.toList

@[simp] theorem inline_append {a b : String} : Inline (a ++ b) ↔ Inline a ∧ Inline b := by
  simp only [Inline, String.toList_append, List.forall_mem_append]

theorem Inline.oneLine {text : String} (inline : Inline text) : OneLine text :=
  ⟨fun feed => (inline _ feed).1 rfl, fun ret => (inline _ ret).2.1 rfl⟩

@[simp] theorem inline_toString (n : Nat) : Inline (toString n) := by
  intro c member
  rw [Nat.toString_eq_repr, Nat.toList_repr] at member
  have digit := Nat.isDigit_of_mem_toDigits (by decide) (by decide) member
  refine ⟨?_, ?_, ?_⟩ <;> rintro rfl <;> cases digit

@[simp] theorem inline_padRight (width : Nat) (text : String) :
    Inline (padRight width ' ' text) ↔ Inline text := by
  simp only [padRight, inline_append, and_iff_left_iff_imp]
  intro _ c member
  rw [String.toList_ofList, List.mem_replicate] at member
  rw [member.2]
  decide

theorem beforeComment_sublist (cs : List Char) : (beforeComment cs).Sublist cs := by
  fun_induction beforeComment cs with
  | case1 => exact List.Sublist.refl _
  | case2 rest => exact List.nil_sublist _
  | case3 c rest _ ih => exact ih.cons_cons c

theorem beforeComment_of_no_slash (cs : List Char) (noSlash : '/' ∉ cs) :
    beforeComment cs = cs := by
  fun_induction beforeComment cs with
  | case1 => rfl
  | case2 rest => simp at noSlash
  | case3 c rest _ ih => rw [ih (fun slash => noSlash (List.mem_cons_of_mem c slash))]

end Hack.Text

namespace Hack

theorem isSymbolChar_plain {c : Char} (symbol : isSymbolChar c = true) :
    c ≠ '\n' ∧ c ≠ '\r' ∧ c ≠ '(' ∧ c ≠ ')' ∧ c ≠ '/' ∧ Text.isBlank c = false := by
  have code : (65 ≤ c.val.toNat ∧ c.val.toNat ≤ 90) ∨ (97 ≤ c.val.toNat ∧ c.val.toNat ≤ 122) ∨
      (48 ≤ c.val.toNat ∧ c.val.toNat ≤ 57) ∨ c = '_' ∨ c = '.' ∨ c = '$' ∨ c = ':' := by
    -- the letter classes are read off by definition rather than by their equation lemmas
    have alpha : c.isAlpha = ((decide (c.val ≥ 'A'.val ∧ c.val ≤ 'Z'.val)) ||
        (c.val ≥ 'a'.val && c.val ≤ 'z'.val)) := rfl
    simp only [isSymbolChar, isSymbolStart, alpha, Char.isDigit, Bool.or_eq_true,
      Bool.and_eq_true, decide_eq_true_eq, beq_iff_eq, UInt32.le_iff_toNat_le, Char.reduceVal,
      UInt32.reduceToNat] at symbol
    rcases symbol with (((((upper | lower) | under) | dot) | dollar) | colon) | digit
    · exact .inl upper
    · exact .inr (.inl lower)
    · exact .inr (.inr (.inr (.inl under)))
    · exact .inr (.inr (.inr (.inr (.inl dot))))
    · exact .inr (.inr (.inr (.inr (.inr (.inl dollar)))))
    · exact .inr (.inr (.inr (.inr (.inr (.inr colon)))))
    · exact .inr (.inr (.inl digit))
  have distinct : ∀ d : Char, d.val.toNat < 36 ∨ d.val.toNat = 40 ∨ d.val.toNat = 41 ∨
      d.val.toNat = 47 → c ≠ d := by
    rintro d small rfl
    rcases code with range | range | range | rfl | rfl | rfl | rfl
    all_goals first | omega | (revert small; decide)
  refine ⟨distinct _ (by decide), distinct _ (by decide), distinct _ (by decide),
    distinct _ (by decide), distinct _ (by decide), ?_⟩
  rcases code with range | range | range | rfl | rfl | rfl | rfl
  all_goals first | decide | (simp only [Text.isBlank, Char.toNat]; simp only [Bool.or_eq_false_iff,
    Bool.and_eq_false_iff, decide_eq_false_iff_not, beq_eq_false_iff_ne, ne_eq]; omega)

theorem isSymbolChar_of_isSymbol {text : String} (symbol : isSymbol text = true) :
    ∀ c ∈ text.toList, isSymbolChar c = true := by
  unfold isSymbol at symbol
  cases chars : text.toList with
  | nil => simp
  | cons first rest =>
    rw [chars, isSymbolChars, Bool.and_eq_true, List.all_eq_true] at symbol
    intro c member
    rcases List.mem_cons.mp member with rfl | later
    · simp [isSymbolChar, symbol.1]
    · exact symbol.2 c later

theorem inline_of_isSymbol {text : String} (symbol : isSymbol text = true) : Text.Inline text := by
  intro c member
  obtain ⟨feed, ret, paren, -⟩ := isSymbolChar_plain (isSymbolChar_of_isSymbol symbol c member)
  exact ⟨feed, ret, paren⟩

end Hack

namespace Hack

/-- A text all of whose characters may continue a symbol. -/
def SymbolChars (text : String) : Prop :=
  ∀ c ∈ text.toList, isSymbolChar c = true

instance : DecidablePred SymbolChars :=
  fun text => List.decidableBAll (fun c => isSymbolChar c = true) text.toList

@[simp] theorem symbolChars_append {a b : String} : SymbolChars (a ++ b) ↔ SymbolChars a ∧ SymbolChars b := by
  simp only [SymbolChars, String.toList_append, List.forall_mem_append]

theorem isSymbol_append {first rest : String} (symbol : isSymbol first = true)
    (tail : SymbolChars rest) : isSymbol (first ++ rest) = true := by
  unfold isSymbol at symbol ⊢
  cases chars : first.toList with
  | nil => rw [chars] at symbol; cases symbol
  | cons c cs =>
    rw [chars, isSymbolChars, Bool.and_eq_true, List.all_eq_true] at symbol
    rw [String.toList_append, chars, List.cons_append, isSymbolChars, Bool.and_eq_true,
      List.all_eq_true]
    refine ⟨symbol.1, fun d member => ?_⟩
    rcases List.mem_append.mp member with early | late
    · exact symbol.2 d early
    · exact tail d late

@[simp] theorem symbolChars_toString (n : Nat) : SymbolChars (toString n) := by
  intro c member
  rw [Nat.toString_eq_repr, Nat.toList_repr] at member
  simp [isSymbolChar, Nat.isDigit_of_mem_toDigits (by decide) (by decide) member]

theorem symbolChars_of_isSymbol {text : String} (symbol : isSymbol text = true) :
    SymbolChars text :=
  isSymbolChar_of_isSymbol symbol

end Hack

namespace Hack.Asm

theorem mem_of_mem_lineCode {line : String} {c : Char} (member : c ∈ lineCode line) :
    c ∈ line.toList :=
  (Text.beforeComment_sublist _).subset (List.mem_filter.mp member).1

/-- A line with no opening parenthesis defines no label. -/
theorem lineLabel?_of_inline {line : String} (inline : Text.Inline line) : lineLabel? line = none := by
  cases found : lineLabel? line with
  | none => rfl
  | some name =>
    unfold lineLabel? at found
    split at found
    · rename_i name' p parsed
      obtain ⟨code, -⟩ := Stmt.parse_eq_label parsed
      have opens : '(' ∈ line.toList := mem_of_mem_lineCode (by rw [code]; simp)
      exact absurd rfl (inline _ opens).2.2
    · cases found

/-- A comment line has no code. -/
theorem lineCode_comment (text : String) : lineCode ("// " ++ text) = [] := by
  simp [lineCode, Text.beforeComment]

/-- A comment line defines no label. -/
theorem lineLabel?_comment (text : String) : lineLabel? ("// " ++ text) = none := by
  simp [lineLabel?, Stmt.parse, lineCode_comment]

/-- The code of the line `(name)` of a symbol is the whole line. -/
theorem lineCode_label {name : String} (symbol : isSymbol name = true) :
    lineCode ("(" ++ name ++ ")") = '(' :: name.toList ++ [')'] := by
  have chars : ("(" ++ name ++ ")").toList = '(' :: name.toList ++ [')'] := by simp
  have plain : ∀ c ∈ ("(" ++ name ++ ")").toList, c ≠ '/' ∧ Text.isBlank c = false := by
    rw [chars]
    intro c member
    simp only [List.mem_cons, List.mem_append] at member
    rcases member with (rfl | inner) | rfl | nothing
    · decide
    · obtain ⟨-, -, -, -, slash, blank⟩ := isSymbolChar_plain (isSymbolChar_of_isSymbol symbol c inner)
      exact ⟨slash, blank⟩
    · decide
    · cases nothing
  rw [lineCode, Text.beforeComment_of_no_slash _ (fun slash => (plain _ slash).1 rfl),
    List.filter_eq_self.mpr (fun c member => by simp [(plain c member).2]), chars]

/-- The line `(name)` of a symbol defines that label. -/
theorem lineLabel?_label {name : String} (symbol : isSymbol name = true) :
    lineLabel? ("(" ++ name ++ ")") = some name := by
  simp [lineLabel?, Stmt.parse_of_labelCode 0 (lineCode_label symbol) symbol]

end Hack.Asm

namespace Hack

theorem inline_mnemonic_dest (dest : Dest) : Text.Inline dest.mnemonic := by
  obtain ⟨a, d, m⟩ := dest
  cases a <;> cases d <;> cases m <;> decide

theorem inline_mnemonic_jump (jump : Jump) : Text.Inline jump.mnemonic := by
  obtain ⟨lt, eq, gt⟩ := jump
  cases lt <;> cases eq <;> cases gt <;> decide

theorem inline_mnemonic_comp (comp : Comp) : Text.Inline comp.mnemonic := by
  cases comp <;> decide

theorem inline_text_compute (dest : Dest) (comp : Comp) (jump : Jump) :
    Text.Inline (Inst.compute dest comp jump).text := by
  have destPart : Text.Inline (if dest.isNull then "" else dest.mnemonic ++ "=") := by
    split
    · decide
    · exact Text.inline_append.mpr ⟨inline_mnemonic_dest dest, by decide⟩
  have jumpPart : Text.Inline (if jump.isNull then "" else ";" ++ jump.mnemonic) := by
    split
    · decide
    · exact Text.inline_append.mpr ⟨by decide, inline_mnemonic_jump jump⟩
  simp only [Inst.text, Text.inline_append]
  exact ⟨⟨destPart, inline_mnemonic_comp comp⟩, jumpPart⟩

end Hack

namespace Hack.Vm

/-- The label a piece defines, if it is a label. -/
def Piece.label? : Piece → Option String
  | .instr _ => none
  | .label name => some name
  | .comment _ => none

/-- A piece whose line the assembler reads as written: an instruction that stays on its line
and opens no label, a label that is a symbol, a comment that stays on its line. -/
def Piece.Clean : Piece → Prop
  | .instr i => Text.Inline i.text
  | .label name => isSymbol name = true
  | .comment text => Text.OneLine text

/-- Code every piece of which the assembler reads as written. -/
def CleanCode (pieces : List Piece) : Prop :=
  ∀ p ∈ pieces, p.Clean

@[simp] theorem cleanCode_nil : CleanCode [] :=
  fun _ member => nomatch member

@[simp] theorem cleanCode_cons {p : Piece} {pieces : List Piece} :
    CleanCode (p :: pieces) ↔ p.Clean ∧ CleanCode pieces :=
  List.forall_mem_cons

@[simp] theorem cleanCode_append {first second : List Piece} :
    CleanCode (first ++ second) ↔ CleanCode first ∧ CleanCode second :=
  List.forall_mem_append

/-- The words a piece takes: one for an instruction, none for a label or a comment. -/
def Piece.width : Piece → Nat
  | .instr _ => 1
  | _ => 0

/-- The line the emitter writes for a piece, `index` being the index of the word it takes. -/
def Piece.line (annotate : Bool) (index : Nat) : Piece → String
  | .instr i =>
    if annotate then "    " ++ Text.padRight 24 ' ' i.text ++ "// " ++ toString index
    else "    " ++ i.text
  | .label name => "(" ++ name ++ ")"
  | .comment text => "// " ++ text

theorem Emitter.emit_eq (e : Emitter) (p : Piece) :
    e.emit p =
      { e with
        lines := e.lines.push (p.line e.annotate e.instCount)
        instCount := e.instCount + p.width } := by
  cases p <;> rfl

theorem inline_line_instr {i : Instr} (text : Text.Inline i.text) (annotate : Bool) (index : Nat) :
    Text.Inline ((Piece.instr i).line annotate index) := by
  have spaces : Text.Inline "    " := by decide
  have slashes : Text.Inline "// " := by decide
  rw [Piece.line]
  split <;> simp only [Text.inline_append, Text.inline_padRight, Text.inline_toString, spaces,
    slashes, text, and_self]

/-- The line of a clean piece stays on its line. -/
theorem Piece.Clean.oneLine_line {p : Piece} (clean : p.Clean) (annotate : Bool) (index : Nat) :
    Text.OneLine (p.line annotate index) := by
  cases p with
  | instr i => exact (inline_line_instr clean annotate index).oneLine
  | label name =>
    have inline : Text.Inline name := inline_of_isSymbol clean
    refine ⟨fun feed => ?_, fun ret => ?_⟩
    · simp only [Piece.line, String.toList_append, List.mem_append] at feed
      rcases feed with (paren | inner) | paren
      · revert paren; decide
      · exact (inline _ inner).1 rfl
      · revert paren; decide
    · simp only [Piece.line, String.toList_append, List.mem_append] at ret
      rcases ret with (paren | inner) | paren
      · revert paren; decide
      · exact (inline _ inner).2.1 rfl
      · revert paren; decide
  | comment text =>
    have inner : Text.OneLine text := clean
    refine ⟨fun feed => ?_, fun ret => ?_⟩
    · simp only [Piece.line, String.toList_append, List.mem_append] at feed
      rcases feed with slashes | inside
      · revert slashes; decide
      · exact inner.1 inside
    · simp only [Piece.line, String.toList_append, List.mem_append] at ret
      rcases ret with slashes | inside
      · revert slashes; decide
      · exact inner.2 inside

/-- The line of a clean piece defines the label the piece is, and no other. -/
theorem Piece.Clean.lineLabel?_line {p : Piece} (clean : p.Clean) (annotate : Bool) (index : Nat) :
    Asm.lineLabel? (p.line annotate index) = p.label? := by
  cases p with
  | instr i => exact Asm.lineLabel?_of_inline (inline_line_instr clean annotate index)
  | label name => exact Asm.lineLabel?_label clean
  | comment text => exact Asm.lineLabel?_comment text

/-- What the assembler reads back from an emitter's lines: each stays on its line, and together
they define `labels`. -/
structure Emitter.Reads (e : Emitter) (labels : List String) : Prop where
  oneLine : ∀ line ∈ e.lines.toList, Text.OneLine line
  defines : e.lines.toList.filterMap Asm.lineLabel? = labels

theorem Emitter.Reads.push {e : Emitter} {labels : List String} (reads : e.Reads labels)
    {line : String} (oneLine : Text.OneLine line) (e' : Emitter)
    (pushed : e'.lines = e.lines.push line) :
    e'.Reads (labels ++ (Asm.lineLabel? line).toList) := by
  constructor
  · intro l member
    rw [pushed, Array.toList_push] at member
    rcases List.mem_append.mp member with old | new
    · exact reads.oneLine l old
    · rw [List.mem_singleton.mp new]
      exact oneLine
  · rw [pushed, Array.toList_push, List.filterMap_append, reads.defines]
    cases found : Asm.lineLabel? line <;> simp [found]

theorem Emitter.Reads.emit {e : Emitter} {labels : List String} (reads : e.Reads labels)
    {p : Piece} (clean : p.Clean) : (e.emit p).Reads (labels ++ p.label?.toList) := by
  have pushed := reads.push (clean.oneLine_line e.annotate e.instCount) (e.emit p)
    (by rw [Emitter.emit_eq])
  rwa [clean.lineLabel?_line] at pushed

theorem Emitter.Reads.emitAll {e : Emitter} {labels : List String} (reads : e.Reads labels)
    {pieces : List Piece} (clean : CleanCode pieces) :
    (e.emitAll pieces).Reads (labels ++ pieces.filterMap Piece.label?) := by
  induction pieces generalizing e labels with
  | nil => simpa [Emitter.emitAll] using reads
  | cons p rest ih =>
    have next := ih (reads.emit (clean p (by simp))) (fun q member => clean q (by simp [member]))
    rw [Emitter.emitAll, List.foldl_cons] at *
    rw [List.filterMap_cons]
    cases found : p.label? <;> simpa [found] using next

theorem Emitter.Reads.put {e : Emitter} {labels : List String} (reads : e.Reads labels)
    {cmd : Command} (clean : CleanCode (cmd.lower e.compareCount)) :
    (e.put cmd).Reads (labels ++ (cmd.lower e.compareCount).filterMap Piece.label?) := by
  have written := reads.emitAll clean
  unfold Emitter.put
  split
  · exact ⟨written.oneLine, written.defines⟩
  · exact written

theorem compareCount_emitAll (e : Emitter) (pieces : List Piece) :
    (e.emitAll pieces).compareCount = e.compareCount := by
  induction pieces generalizing e with
  | nil => rfl
  | cons p rest ih =>
    rw [Emitter.emitAll, List.foldl_cons, ← Emitter.emitAll, ih]
    cases p <;> rfl

theorem compareCount_put (e : Emitter) (cmd : Command) :
    (e.put cmd).compareCount = e.compareCount + if cmd.isComparison then 1 else 0 := by
  unfold Emitter.put
  split <;> simp [compareCount_emitAll, *]

/-- The assembler reads from the finished text exactly the labels the emitter wrote. -/
theorem Emitter.Reads.definedLabels {e : Emitter} {labels : List String} (reads : e.Reads labels) :
    Asm.definedLabels e.finish = labels := by
  unfold Asm.definedLabels Emitter.finish
  by_cases empty : e.lines.toList = []
  · have none : Asm.lineLabel? "" = none := Asm.lineLabel?_of_inline (by decide)
    rw [empty, ← reads.defines, empty]
    simp [Text.lines, Text.linesFrom, Text.closeLine, none]
  · rw [Text.lines_join _ empty reads.oneLine, reads.defines]

@[simp] theorem clean_addr (name : String) : (Code.addr name).Clean ↔ Text.Inline name := by
  simp [Code.addr, Piece.Clean, Instr.text, show Text.Inline "@" by decide]

@[simp] theorem clean_literal (n : Nat) : (Code.literal n).Clean := by
  simp only [Code.literal, Piece.Clean, Instr.text, Text.inline_append, Text.inline_toString,
    and_true]
  decide

@[simp] theorem clean_assign (dest : Dest) (comp : Comp) : (Code.assign dest comp).Clean :=
  inline_text_compute dest comp _

@[simp] theorem clean_branchOn (comp : Comp) (jump : Jump) : (Code.branchOn comp jump).Clean :=
  inline_text_compute _ comp jump

@[simp] theorem clean_label (name : String) : (Piece.label name).Clean ↔ isSymbol name = true :=
  Iff.rfl

@[simp] theorem clean_comment (text : String) : (Piece.comment text).Clean ↔ Text.OneLine text :=
  Iff.rfl

section Lowering

variable {s : Scope} (fileSymbol : isSymbol s.file = true)
  (functionSymbol : isSymbol s.function = true)

include functionSymbol in
/-- A name made in the current function is a symbol. -/
theorem isSymbol_scoped {suffix : String} (tail : SymbolChars suffix) :
    isSymbol (s.function ++ suffix) = true :=
  isSymbol_append functionSymbol tail

include fileSymbol functionSymbol in
theorem inline_text {cmd : Command} (named : cmd.Named s) : Text.Inline cmd.text := by
  have symbolText : ∀ {t : String}, isSymbol t = true → Text.Inline t := inline_of_isSymbol
  cases cmd with
  | arithmetic op => cases op <;> decide
  | memory access slot =>
    have keyword : Text.Inline access.keyword := by cases access <;> decide
    have space : Text.Inline " " := by decide
    cases slot with
    | static name =>
      obtain ⟨i, rfl⟩ : ∃ i : Nat, name = s.file ++ "." ++ toString i := named
      simp only [Command.text, Slot.text, Slot.segment, Text.inline_append, keyword, space,
        symbolText fileSymbol, Text.inline_toString]
      decide
    | frame base i =>
      cases base <;> simp only [Command.text, Slot.text, Slot.segment, Base.segment,
        Text.inline_append, keyword, space, Text.inline_toString] <;> decide
    | _ =>
      simp only [Command.text, Slot.text, Slot.segment, Text.inline_append, keyword, space,
        Text.inline_toString]
      decide
  | branch kind name =>
    obtain ⟨label, symbol, rfl⟩ := named
    have keyword : Text.Inline kind.keyword := by cases kind <;> decide
    simp only [Command.text, Text.inline_append, keyword, symbolText functionSymbol,
      symbolText symbol]
    decide
  | define name locals =>
    simp only [Command.text, Text.inline_append, symbolText (show isSymbol name = true from named),
      Text.inline_toString]
    decide
  | call name args tag =>
    simp only [Command.text, Text.inline_append, symbolText named.1, Text.inline_toString]
    decide
  | ret => decide

theorem isSymbol_compare (serial : Nat) (suffix : String) (tail : SymbolChars suffix) :
    isSymbol ("__CMP" ++ toString serial ++ suffix) = true := by
  rw [String.append_assoc]
  exact isSymbol_append (by decide) (symbolChars_append.mpr ⟨symbolChars_toString serial, tail⟩)

theorem compare_clean (serial : Nat) (jump : Jump) : CleanCode (Code.compare serial jump) := by
  have onTrue := isSymbol_compare serial "$TRUE" (by decide)
  have done := isSymbol_compare serial "$END" (by decide)
  simp +decide only [Code.compare, Code.unary, cleanCode_append, cleanCode_cons, cleanCode_nil,
    clean_addr, clean_assign, clean_branchOn, clean_label, onTrue, done,
    inline_of_isSymbol onTrue, inline_of_isSymbol done, and_self]

@[simp] theorem offset_clean (dest : Dest) (index : UInt16) : CleanCode (Code.offset dest index) := by
  unfold Code.offset
  split
  · exact cleanCode_nil
  · split <;> simp

theorem inline_register (base : Base) : Text.Inline base.register := by
  cases base <;> decide

include fileSymbol in
theorem slot_clean {access : Access} {slot : Slot} (named : slot.Named s access) (serial : Nat) :
    CleanCode ((Command.memory access slot).body serial) := by
  cases slot with
  | constant v =>
    cases access with
    | push => simp +decide [Command.body, Code.push, Code.pushD]
    | pop => simp [Command.body, Code.pop]
  | static name =>
    obtain ⟨i, rfl⟩ : ∃ i : Nat, name = s.file ++ "." ++ toString i := named
    -- simp writes a number's text as `Nat.repr`
    have inline : Text.Inline (s.file ++ "." ++ i.repr) := by
      simp only [Text.inline_append]
      exact ⟨⟨inline_of_isSymbol fileSymbol, by decide⟩, Text.inline_toString i⟩
    cases access <;> simp +decide [Command.body, Code.push, Code.pop, Code.pushD, Code.popD, inline]
  | temp i =>
    -- the register's name, or the empty name of the generator's panic
    have inline : Text.Inline (Code.tempRegister i) := by
      unfold Code.tempRegister
      split
      · simp only [Text.inline_append]
        exact ⟨by decide, Text.inline_toString _⟩
      · decide
    cases access <;> simp +decide [Command.body, Code.push, Code.pop, Code.pushD, Code.popD, inline]
  | pointer i =>
    have inline : Text.Inline (Code.pointerRegister i) := by
      unfold Code.pointerRegister
      split <;> decide
    cases access <;> simp +decide [Command.body, Code.push, Code.pop, Code.pushD, Code.popD, inline]
  | frame base i =>
    cases access <;> simp +decide [Command.body, Code.push, Code.pop, Code.pushD, Code.popD,
      inline_register]

include fileSymbol functionSymbol in
/-- Every piece of a command's code is read by the assembler as written. -/
theorem lower_clean {cmd : Command} (named : cmd.Named s) (serial : Nat) :
    CleanCode (cmd.lower serial) := by
  rw [Command.lower, cleanCode_cons]
  refine ⟨(inline_text fileSymbol functionSymbol named).oneLine, ?_⟩
  cases cmd with
  | arithmetic op =>
    cases op
    case eq | gt | lt => exact compare_clean serial _
    all_goals simp +decide [Command.body, Code.arithmetic, Code.binary, Code.unary]
  | memory access slot => exact slot_clean fileSymbol named serial
  | branch kind name =>
    obtain ⟨label, symbol, rfl⟩ := named
    have tail : SymbolChars ("$" ++ label) :=
      symbolChars_append.mpr ⟨by decide, symbolChars_of_isSymbol symbol⟩
    have inScope := isSymbol_scoped functionSymbol tail
    rw [← String.append_assoc] at inScope
    cases kind <;> simp +decide [Command.body, Code.popD, inScope, inline_of_isSymbol inScope]
  | define name locals =>
    have symbol : isSymbol name = true := named
    rw [Command.body, Code.define, cleanCode_cons]
    refine ⟨symbol, fun p member => ?_⟩
    obtain ⟨block, repeated, inBlock⟩ := List.mem_flatten.mp member
    rw [(List.mem_replicate.mp repeated).2] at inBlock
    simp only [List.mem_cons, List.not_mem_nil, or_false] at inBlock
    rcases inBlock with rfl | rfl | rfl | rfl <;> simp +decide
  | call name args tag =>
    obtain ⟨symbol, rfl⟩ := named
    have tail : SymbolChars ("$ret." ++ toString s.calls) :=
      symbolChars_append.mpr ⟨by decide, symbolChars_toString s.calls⟩
    have inScope := isSymbol_scoped functionSymbol tail
    rw [← String.append_assoc] at inScope
    -- simp writes a number's text as `Nat.repr`
    have tag : isSymbol (s.function ++ "$ret." ++ s.calls.repr) = true := inScope
    have count : Text.Inline s.calls.repr := Text.inline_toString s.calls
    simp +decide [Command.body, Code.call, Code.pushD, Code.saved, tag, count,
      inline_of_isSymbol functionSymbol, inline_of_isSymbol symbol]
  | ret => simp +decide [Command.body, Code.ret, Code.popD, Code.saved]

end Lowering

end Hack.Vm
