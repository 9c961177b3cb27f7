import Hack.Proofs.ProgramText
import Hack.Proofs.AsmOutcome
import Hack.Vm.Listing
/-! Translator and assembler agree on the text of a translated program, and on the dump's numbering
of it. -/

set_option autoImplicit false

namespace Hack.Text

theorem dropWhile_append_cons {α : Type} {p : α → Bool} (xs : List α) {y : α} (ys : List α)
    (stop : p y = false) : ∃ kept, (xs ++ y :: ys).dropWhile p = kept ++ y :: ys := by
  induction xs with
  | nil => exact ⟨[], by simp [stop]⟩
  | cons x rest ih =>
    by_cases drop : p x = true
    · rw [List.cons_append, List.dropWhile_cons_of_pos drop]
      exact ih
    · exact ⟨x :: rest, by rw [List.cons_append, List.dropWhile_cons_of_neg drop]⟩

/-- Leading blanks do not change what trimming leaves. -/
theorem trimChars_blanks_append {blanks : List Char} (all : ∀ c ∈ blanks, isBlank c = true)
    (rest : List Char) : trimChars (blanks ++ rest) = trimChars rest := by
  have gone : blanks.dropWhile isBlank = [] := by
    induction blanks with
    | nil => rfl
    | cons c more ih =>
      rw [List.dropWhile_cons_of_pos (all c List.mem_cons_self)]
      exact ih (fun d member => all d (List.mem_cons_of_mem c member))
  unfold trimChars
  rw [List.dropWhile_append, gone]
  rfl

/-- Trimming keeps a first word that starts and ends with no blank. -/
theorem trimChars_append {pre : List Char} (rest : List Char) (nonempty : pre ≠ [])
    (solid : ∀ c ∈ pre, isBlank c = false) : ∃ t, trimChars (pre ++ rest) = pre ++ t := by
  obtain ⟨c, mid, rfl⟩ := List.exists_cons_of_ne_nil nonempty
  obtain ⟨d, front, reversed⟩ := List.exists_cons_of_ne_nil
    (show (c :: mid).reverse ≠ [] by simp)
  have last : isBlank d = false := solid d (by rw [← List.mem_reverse, reversed]; exact List.mem_cons_self)
  obtain ⟨kept, dropped⟩ := dropWhile_append_cons rest.reverse front last
  refine ⟨kept.reverse, ?_⟩
  unfold trimChars
  rw [List.cons_append, List.dropWhile_cons_of_neg (by simp [solid c List.mem_cons_self]),
    ← List.cons_append, List.reverse_append, reversed, dropped, List.reverse_append, ← reversed,
    List.reverse_reverse]

theorem toList_trim (line : String) : (trim line).toList = trimChars line.toList := by
  rw [trim, String.toList_ofList]

end Hack.Text

namespace Hack.Vm

open Asm

/-! ### The dump -/

/-- Whether the dump gives a line an index: its trimmed text starts neither a comment nor a
label. -/
def dumpIndexes (line : String) : Bool :=
  !(Text.trim line).startsWith "//" && !(Text.trim line).startsWith "("

theorem dumpLine_snd (n : Nat) (line : String) :
    (dumpLine n line).2 = n + (dumpIndexes line).toNat := by
  unfold dumpLine dumpIndexes
  cases comment : (Text.trim line).startsWith "//" <;>
    cases label : (Text.trim line).startsWith "(" <;> simp [comment, label]

/-- The dump shows every line between two rules, each indexed line with the number of indexed
lines before it. -/
theorem dump_eq (asm : String) :
    dump asm = dumpRule ++ "\n" ++
      String.join (mapAfter (fun before line => (dumpLine (before.countP dumpIndexes) line).1 ++ "\n")
        [] (Text.lines asm)) ++ dumpRule ++ "\n" := by
  unfold dump
  extract_lets step
  -- the dump's step writes the line's dump and passes on the index of the next instruction
  have spec : ∀ acc line, step acc line =
      (acc.1 ++ (dumpLine acc.2 line).1 ++ "\n", (dumpLine acc.2 line).2) := by
    intro acc line
    simp only [step]
  clear_value step
  -- the fold carries the text so far and the number of indexed lines so far
  have fold : ∀ (lines before : List String) (acc : String),
      lines.foldl step (acc, before.countP dumpIndexes) =
        (acc ++ String.join (mapAfter (fun before line =>
          (dumpLine (before.countP dumpIndexes) line).1 ++ "\n") before lines),
          (before ++ lines).countP dumpIndexes) := by
    intro lines
    induction lines with
    | nil =>
      intro before acc
      simp
    | cons line rest ih =>
      intro before acc
      have counted : (dumpLine (before.countP dumpIndexes) line).2 =
          (before ++ [line]).countP dumpIndexes := by
        rw [dumpLine_snd, List.countP_append, List.countP_singleton]
        cases dumpIndexes line <;> rfl
      rw [List.foldl_cons, spec]
      dsimp only
      rw [counted, ih, mapAfter_cons, String.join_cons, List.append_assoc, List.singleton_append]
      simp only [String.append_assoc]
  rw [show (("", 0) : String × Nat) = ("", ([] : List String).countP dumpIndexes) from rfl,
    fold (Text.lines asm) [] ""]
  simp

section Classes

variable {line : String} {t : List Char}

theorem dumpIndexes_of_trim {c : Char} (trimmed : Text.trimChars line.toList = c :: t)
    (notComment : c ≠ '/') (notLabel : c ≠ '(') : dumpIndexes line = true := by
  have chars : (Text.trim line).toList = c :: t := by
    rw [Text.toList_trim, trimmed]
  have slashes : ("//" : String).toList = ['/', '/'] := rfl
  have paren : ("(" : String).toList = ['('] := rfl
  simp only [dumpIndexes, Bool.and_eq_true, Bool.not_eq_true', String.startsWith_string_eq_false_iff,
    chars, slashes, paren, List.cons_prefix_cons, not_and]
  exact ⟨fun same => absurd same.symm notComment, fun same => absurd same.symm notLabel⟩

theorem dumpIndexes_of_label (trimmed : Text.trimChars line.toList = '(' :: t) :
    dumpIndexes line = false := by
  have chars : (Text.trim line).toList = '(' :: t := by
    rw [Text.toList_trim, trimmed]
  have paren : ("(" : String).toList = ['('] := rfl
  have opens : (Text.trim line).startsWith "(" = true := by
    rw [String.startsWith_string_iff, chars, paren]
    exact List.cons_prefix_cons.mpr ⟨rfl, List.nil_prefix⟩
  simp [dumpIndexes, opens]

theorem dumpIndexes_of_comment (trimmed : Text.trimChars line.toList = '/' :: '/' :: t) :
    dumpIndexes line = false := by
  have chars : (Text.trim line).toList = '/' :: '/' :: t := by
    rw [Text.toList_trim, trimmed]
  have slashes : ("//" : String).toList = ['/', '/'] := rfl
  have opens : (Text.trim line).startsWith "//" = true := by
    rw [String.startsWith_string_iff, chars, slashes]
    exact List.cons_prefix_cons.mpr ⟨rfl, List.cons_prefix_cons.mpr ⟨rfl, List.nil_prefix⟩⟩
  simp [dumpIndexes, opens]

end Classes

/-- The dump numbers the line of a sound piece exactly when the assembler reads a word from it. -/
theorem dumpIndexes_line {p : Piece} (sound : p.Sound) (annotate : Bool) (index : Nat) :
    dumpIndexes (p.line annotate index) = isInstCode (lineCode (p.line annotate index)) := by
  cases p with
  | instr i =>
    obtain ⟨c, rest, chars, notLabel, code⟩ := Instr.text_code sound
    have first := code c (by rw [chars]; exact List.mem_cons_self)
    -- the line is four blanks, the text, and perhaps padding and the annotation
    obtain ⟨tail, shape⟩ : ∃ tail, ((Piece.instr i).line annotate index).toList =
        List.replicate 4 ' ' ++ ([c] ++ (rest ++ tail)) := by
      rw [Piece.line]
      split
      · exact ⟨List.replicate (24 - i.text.length) ' ' ++ '/' :: '/' :: ' ' :: (toString index).toList,
          by simp [Text.padRight, chars]⟩
      · exact ⟨[], by simp [chars]⟩
    obtain ⟨t, trimmed⟩ := Text.trimChars_append (rest ++ tail) (List.cons_ne_nil c [])
      (by simp [first.2])
    have blanks : ∀ d ∈ List.replicate 4 ' ', Text.isBlank d = true := by
      intro d member
      rw [(List.mem_replicate.mp member).2]
      rfl
    have trimmedLine : Text.trimChars ((Piece.instr i).line annotate index).toList = c :: t := by
      rw [shape, Text.trimChars_blanks_append blanks, trimmed]
      rfl
    rw [dumpIndexes_of_trim trimmedLine first.1 notLabel, lineCode_instr sound, chars,
      isInstCode_cons rest notLabel]
  | label name =>
    have symbol : isSymbol name = true := sound
    obtain ⟨t, trimmed⟩ := Text.trimChars_append (name.toList ++ [')']) (List.cons_ne_nil '(' [])
      (by simp; rfl)
    have chars : ((Piece.label name).line annotate index).toList = ['('] ++ (name.toList ++ [')']) := by
      simp [Piece.line]
    rw [dumpIndexes_of_label (t := t) (by rw [chars, trimmed]; rfl), Piece.line, lineCode_label symbol]
    rfl
  | comment text =>
    obtain ⟨t, trimmed⟩ := Text.trimChars_append (' ' :: text.toList)
      (List.cons_ne_nil '/' ['/']) (by simp; decide)
    have chars : ((Piece.comment text).line annotate index).toList = ['/', '/'] ++ ' ' :: text.toList := by
      simp [Piece.line]
    rw [dumpIndexes_of_comment (t := t) (by rw [chars, trimmed]; rfl), Piece.line, lineCode_comment]
    rfl

/-! ### The lines of a translated program, as the assembler reads them -/

/-- The number of instruction lines among some lines: the words they assemble to. -/
def codeLines (lines : List String) : Nat :=
  lines.countP fun line => isInstCode (lineCode line)

theorem codeLines_cons (line : String) (lines : List String) :
    codeLines (line :: lines) = (isInstCode (lineCode line)).toNat + codeLines lines := by
  rw [codeLines, codeLines, List.countP_cons, Nat.add_comm]
  cases isInstCode (lineCode line) <;> rfl

theorem wordCount_eq_codeLines (lines : List SourceLine) :
    wordCount lines = codeLines (lines.map SourceLine.raw) := by
  rw [wordCount, codeLines, List.countP_map, List.countP_eq_length_filter]
  rfl

/-- Sound pieces assemble to as many words as they take. -/
theorem codeLines_renderFrom {annotate : Bool} :
    ∀ {index : Nat} {pieces : List Piece}, SoundCode pieces →
      codeLines (renderFrom annotate index pieces) = codeWidth pieces
  | _, [], _ => rfl
  | index, p :: rest, sound => by
    rw [soundCode_cons] at sound
    rw [renderFrom, codeLines_cons, Piece.isInstCode_line sound.1, codeLines_renderFrom sound.2,
      codeWidth_cons]

/-- The code of the lines of sound pieces does not depend on their annotation. -/
theorem lineCodes_renderFrom {annotate : Bool} :
    ∀ {index : Nat} {pieces : List Piece}, SoundCode pieces →
      (renderFrom annotate index pieces).map lineCode = pieces.map fun p => lineCode (p.line false 0)
  | _, [], _ => rfl
  | index, p :: rest, sound => by
    rw [soundCode_cons] at sound
    rw [renderFrom, List.map_cons, List.map_cons, Piece.lineCode_line sound.1,
      lineCodes_renderFrom sound.2]

section Translated

variable {units : List SourceFile} {options : Options} {text : String}
  (symbols : ∀ u ∈ units, isSymbol u.name = true) (translated : translate units options = .ok text)

include symbols translated in
/-- Every line of a translated program reads, whatever the index of its word. -/
theorem reads_translate (file : String) :
    ∀ line ∈ sourceLines [(file, text)], ∀ pc, ∃ stmt, Stmt.parse line.raw pc = .ok stmt := by
  intro line member pc
  have raw : line.raw ∈ Text.lines text := by
    rw [← raws_fileLines file text, ← sourceLines_single]
    exact List.mem_map_of_mem member
  rw [lines_translate symbols translated] at raw
  split at raw
  · rw [List.mem_singleton.mp raw]
    exact ⟨none, rfl⟩
  · obtain ⟨p, inCode, at_, same⟩ := mem_renderFrom raw
    have sound := sound_translate symbols translated p inCode
    rw [same]
    exact ⟨_, Piece.parse_line sound _ _ pc⟩

include symbols translated in
/-- A translated program fails to assemble only when it is too large, when a label repeats a
name, or when a variable would reach the screen map. -/
theorem assemble_translate_error (file : String) {e : Asm.LineError}
    (failed : assemble file text = .error e) :
    e.error = .programTooLarge ∨ (∃ name previous, e.error = .redefinedLabel name previous) ∨
      ∃ name, e.error = .variableOverflow name := by
  have reference : assembleReference [(file, text)] = .error e := by
    rw [← assemble_reference, failed]
    rfl
  exact assembleReference_error (reads_translate symbols translated file) reference

include symbols translated in
/-- A translated program has one instruction line for each word of its code. -/
theorem wordCount_translate (file : String) :
    wordCount (sourceLines [(file, text)]) = codeWidth (programCode units options) := by
  rw [wordCount_eq_codeLines, sourceLines_single, raws_fileLines, lines_translate symbols translated]
  split
  · rename_i empty
    rw [empty]
    rfl
  · exact codeLines_renderFrom (sound_translate symbols translated)

include symbols translated in
/-- A translated program whose code fits the ROM reads without an error: every line parses, and
the lines before any line take fewer words than the ROM has. -/
theorem firstIssue_readError_translate (file : String)
    (fits : codeWidth (programCode units options) < romSize) :
    firstIssue readError [] (sourceLines [(file, text)]) = none := by
  apply firstIssue_eq_none
  intro before line after split
  have member : line ∈ sourceLines [(file, text)] := by
    rw [split]
    simp
  obtain ⟨stmt, parsed⟩ :=
    reads_translate symbols translated file line member (wordCount before).toUInt16
  have within : wordCount before < romSize := by
    have total := wordCount_translate symbols translated file
    rw [split, wordCount_append] at total
    omega
  rw [List.nil_append, readError, SourceLine.read, parsed]
  cases stmt with
  | none => rfl
  | some _ => exact if_neg (Nat.not_le.mpr within)

include symbols translated in
/-- A translated program that assembles has as many words as the translator counted. -/
theorem size_assemble_translate (file : String) {words : Array UInt16}
    (assembled : assemble file text = .ok words) :
    words.size = (programEmitter units options).instCount := by
  rw [← Array.length_toList, length_assembleReference (assembleReference_of_assemble assembled),
    wordCount_translate symbols translated file, (programEmitter_holds units options).count]

include symbols translated in
/-- An instruction line of an annotated translation carries the index of its word: the number
of instruction lines before it. -/
theorem annotation_translate (annotated : options.annotate = true) (file : String)
    {before after : List SourceLine} {line : SourceLine}
    (split : sourceLines [(file, text)] = before ++ line :: after)
    (inst : isInstCode (lineCode line.raw) = true) :
    ∃ i, line.raw = (Piece.instr i).line true (wordCount before) := by
  have raws := congrArg (List.map SourceLine.raw) split
  rw [sourceLines_single, raws_fileLines, lines_translate symbols translated, List.map_append,
    List.map_cons] at raws
  split at raws
  · -- a program with no code is one blank line, which holds no instruction
    have blank : line.raw ∈ [""] := by
      rw [raws]
      simp
    rw [List.mem_singleton.mp blank] at inst
    exact absurd inst (by decide)
  · rw [programLines, annotated] at raws
    obtain ⟨pre, p, post, pieces, rendered, shape⟩ := renderFrom_eq_append_cons raws
    have sound := sound_translate symbols translated
    rw [pieces] at sound
    have soundPre : SoundCode pre := fun q member => sound q (by simp [member])
    have soundP : p.Sound := sound p (by simp)
    have counted : wordCount before = codeWidth pre := by
      rw [wordCount_eq_codeLines, rendered, codeLines_renderFrom soundPre]
    rw [Nat.zero_add] at shape
    rw [counted, shape]
    have width := Piece.isInstCode_line soundP true (codeWidth pre)
    rw [← shape, inst] at width
    cases p with
    | instr i => exact ⟨i, rfl⟩
    | label name => cases width
    | comment text => cases width

include symbols translated in
/-- In a translated program that has code, the dump numbers exactly the lines the assembler reads
a word from. -/
theorem dumpIndexes_translate (code : programCode units options ≠ []) :
    ∀ line ∈ Text.lines text, dumpIndexes line = isInstCode (lineCode line) := by
  intro line member
  rw [lines_translate symbols translated, if_neg code] at member
  obtain ⟨p, inCode, at_, rfl⟩ := mem_renderFrom member
  exact dumpIndexes_line (sound_translate symbols translated p inCode)
    _ _

/-- When a one-file program assembles, its instruction line `k` gives word `k`. -/
theorem word_translate (file : String) {words : Array UInt16}
    (assembled : assemble file text = .ok words) {before after : List SourceLine}
    {line : SourceLine} (split : sourceLines [(file, text)] = before ++ line :: after)
    (inst : isInstCode (lineCode line.raw) = true) :
    ∃ w, (line.toLine before).stmt.bind (word (program (sourceLines [(file, text)]))) = some w ∧
      words[wordCount before]? = some w := by
  rw [← Array.getElem?_toList]
  exact assembleReference_getElem? (assembleReference_of_assemble assembled) split inst

theorem mapAfter_ext {α β : Type} {P : α → Prop} {f g : List α → α → β}
    (agree : ∀ pre x, (∀ y ∈ pre, P y) → P x → f pre x = g pre x) :
    ∀ {before xs : List α}, (∀ y ∈ before, P y) → (∀ y ∈ xs, P y) →
      mapAfter f before xs = mapAfter g before xs := by
  intro before xs
  induction xs generalizing before with
  | nil => intro _ _; rfl
  | cons x rest ih =>
    intro onBefore onList
    have here := onList x List.mem_cons_self
    have onAfter : ∀ y ∈ before ++ [x], P y := by
      intro y member
      rcases List.mem_append.mp member with early | late
      · exact onBefore y early
      · rw [List.mem_singleton.mp late]
        exact here
    rw [mapAfter_cons, mapAfter_cons, agree before x onBefore here,
      ih onAfter (fun y member => onList y (List.mem_cons_of_mem x member))]

include symbols translated in
/-- In a translated program that has code, the dump numbers every instruction line with the
number of instruction lines before it: the index of its word. -/
theorem dump_translate (code : programCode units options ≠ []) :
    dump text = dumpRule ++ "\n" ++
      String.join (mapAfter (fun before line => (dumpLine (codeLines before) line).1 ++ "\n") []
        (Text.lines text)) ++ dumpRule ++ "\n" := by
  have agree := dumpIndexes_translate symbols translated code
  rw [dump_eq, mapAfter_ext (P := fun line => dumpIndexes line = isInstCode (lineCode line)) ?_
    (by simp) agree]
  intro pre line samePre _
  rw [codeLines, List.countP_congr (fun y member => by rw [samePre y member])]

-- Without code the text is one blank line, and the dump numbers that line as instruction 0.
example : translate [⟨"Main", "Main.vm", ""⟩] { bootstrap := false } = .ok "\n" ∧
    dump "\n" = dumpRule ++ "\n" ++ "    0 |     \x1b[32m\x1b[39m\n" ++ dumpRule ++ "\n" := by
  constructor <;> rfl

include symbols translated in
/-- The code of the lines of a translation: one empty line for a program without code, else the
code of each piece's line, which no annotation changes. -/
theorem lineCodes_translate :
    (Text.lines text).map lineCode = if programCode units options = [] then [[]] else
      (programCode units options).map fun p => lineCode (p.line false 0) := by
  rw [lines_translate symbols translated]
  split
  · rfl
  · exact lineCodes_renderFrom (sound_translate symbols translated)

include symbols translated in
/-- Annotations change no word: the same program translated with annotations on or off assembles
to the same words, or fails at the same line with the same error. -/
theorem assemble_translate_annotate (file : String) (annotate : Bool) :
    ∃ text', translate units { options with annotate } = .ok text' ∧
      (assemble file text).mapError Located.site = (assemble file text').mapError Located.site := by
  have reads := (translate_eq_ok translated).1
  have other := translate_of_read { options with annotate } reads
  refine ⟨_, other, Asm.assemble_congr ?_⟩
  rw [lineCodes_translate symbols translated, lineCodes_translate symbols other]
  rfl

end Translated

/-! ### The agreement -/

/-- The translator and the assembler agree on the text of every program whose units are named by
symbols. Every piece the translator writes is sound and its line reads back as its statement,
whatever the annotation, and the text's lines are those lines. Assembling fails only when the
program is too large, when a label repeats a name, or when a variable would reach the screen map.
When it assembles, the words number as many as the translator counted, instruction line `k`
gives word `k`, and an annotated instruction line carries that `k`; annotations change no word.
For a program that has code, the dump numbers exactly the instruction lines, each with the index
of its word; a program with no code is a single blank line, which the dump would number too. -/
theorem translation_assembly {units : List SourceFile} {options : Options} {text : String}
    (symbols : ∀ u ∈ units, isSymbol u.name = true)
    (translated : translate units options = .ok text) (file : String) :
    (∀ p ∈ programCode units options, p.Sound ∧
      ∀ annotate index pc, Stmt.parse (p.line annotate index) pc = .ok (p.stmt pc)) ∧
    Text.lines text = (if programCode units options = [] then [""] else programLines units options) ∧
    (∀ e, assemble file text = .error e →
      e.error = .programTooLarge ∨ (∃ name previous, e.error = .redefinedLabel name previous) ∨
        ∃ name, e.error = .variableOverflow name) ∧
    (∀ words, assemble file text = .ok words → words.size = (programEmitter units options).instCount) ∧
    (∀ before line after, sourceLines [(file, text)] = before ++ line :: after →
      isInstCode (lineCode line.raw) = true →
      (∀ words, assemble file text = .ok words →
        ∃ w, (line.toLine before).stmt.bind (word (program (sourceLines [(file, text)]))) = some w ∧
          words[wordCount before]? = some w) ∧
      (options.annotate = true → ∃ i, line.raw = (Piece.instr i).line true (wordCount before))) ∧
    (∀ annotate, ∃ text', translate units { options with annotate } = .ok text' ∧
      (assemble file text).mapError Located.site = (assemble file text').mapError Located.site) ∧
    (programCode units options ≠ [] →
      (∀ line ∈ Text.lines text, dumpIndexes line = isInstCode (lineCode line)) ∧
      dump text = dumpRule ++ "\n" ++ String.join (mapAfter (fun before line =>
        (dumpLine (codeLines before) line).1 ++ "\n") [] (Text.lines text)) ++ dumpRule ++ "\n") := by
  have sound := sound_translate symbols translated
  refine ⟨fun p member => ⟨sound p member, fun annotate index pc =>
      Piece.parse_line (sound p member) annotate index pc⟩,
    lines_translate symbols translated,
    fun e failed => assemble_translate_error symbols translated file failed,
    fun words assembled => size_assemble_translate symbols translated file assembled,
    fun before line after split inst =>
      ⟨fun words assembled => word_translate file assembled split inst,
        fun annotated => annotation_translate symbols translated annotated file split inst⟩,
    assemble_translate_annotate symbols translated file,
    fun code => ⟨dumpIndexes_translate symbols translated code, dump_translate symbols translated code⟩⟩

/-- One push, translated without bootstrap, assembles to the six words its code counts. -/
theorem translation_assembly_push :
    translate [⟨"Main", "Main.vm", "push constant 1\n"⟩] { bootstrap := false } =
        .ok "// push constant 1\n    @1\n    D=A\n    @SP\n    M=M+1\n    A=M-1\n    M=D\n" ∧
      ∀ words, assemble "Main.asm"
          "// push constant 1\n    @1\n    D=A\n    @SP\n    M=M+1\n    A=M-1\n    M=D\n" = .ok words →
        words.size = 6 := by
  have symbols : ∀ u ∈ [(⟨"Main", "Main.vm", "push constant 1\n"⟩ : SourceFile)],
      isSymbol u.name = true := by
    simp only [List.mem_singleton, forall_eq]
    decide
  have translated : translate [⟨"Main", "Main.vm", "push constant 1\n"⟩] { bootstrap := false } =
      .ok "// push constant 1\n    @1\n    D=A\n    @SP\n    M=M+1\n    A=M-1\n    M=D\n" := by
    rfl
  have counted : (programEmitter [⟨"Main", "Main.vm", "push constant 1\n"⟩]
      { bootstrap := false }).instCount = 6 := by
    rfl
  refine ⟨translated, fun words assembled => ?_⟩
  rw [(translation_assembly symbols translated "Main.asm").2.2.2.1 words assembled, counted]

end Hack.Vm
