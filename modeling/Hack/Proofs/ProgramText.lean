import Hack.Proofs.StatementText
import Hack.Proofs.LabelUniqueness
import Hack.Proofs.CommandEffect
/-! The text of a translated program as the lines of its code, and every piece of that code sound. -/

set_option autoImplicit false

namespace Hack.Vm

open Asm

/-! ### The lines of pieces -/

/-- The lines of pieces written from the word `index` on. -/
def renderFrom (annotate : Bool) : Nat → List Piece → List String
  | _, [] => []
  | index, p :: rest => p.line annotate index :: renderFrom annotate (index + p.width) rest

/-- The words some pieces take. -/
def codeWidth : List Piece → Nat
  | [] => 0
  | p :: rest => p.width + codeWidth rest

@[simp] theorem codeWidth_nil : codeWidth [] = 0 := rfl

@[simp] theorem codeWidth_cons (p : Piece) (pieces : List Piece) :
    codeWidth (p :: pieces) = p.width + codeWidth pieces := rfl

@[simp] theorem codeWidth_append (first second : List Piece) :
    codeWidth (first ++ second) = codeWidth first + codeWidth second := by
  induction first with
  | nil => simp
  | cons p rest ih => simp [ih, Nat.add_assoc]

theorem renderFrom_append (annotate : Bool) (first second : List Piece) (index : Nat) :
    renderFrom annotate index (first ++ second) =
      renderFrom annotate index first ++ renderFrom annotate (index + codeWidth first) second := by
  induction first generalizing index with
  | nil => simp [renderFrom]
  | cons p rest ih => simp [renderFrom, ih, Nat.add_assoc]

theorem length_renderFrom (annotate : Bool) (index : Nat) (pieces : List Piece) :
    (renderFrom annotate index pieces).length = pieces.length := by
  induction pieces generalizing index with
  | nil => rfl
  | cons p rest ih => simp [renderFrom, ih]

/-- A line of the rendering of some pieces is the line of one of them, after the rendering of
the pieces before it. -/
theorem renderFrom_eq_append_cons {annotate : Bool} {line : String} {after : List String} :
    ∀ {before : List String} {index : Nat} {pieces : List Piece},
      renderFrom annotate index pieces = before ++ line :: after →
      ∃ pre p post, pieces = pre ++ p :: post ∧ before = renderFrom annotate index pre ∧
        line = p.line annotate (index + codeWidth pre)
  | _, _, [], split => by simp [renderFrom] at split
  | [], index, p :: rest, split => by
    simp only [renderFrom, List.nil_append, List.cons.injEq] at split
    exact ⟨[], p, rest, rfl, rfl, by simp [split.1]⟩
  | _ :: before, index, p :: rest, split => by
    simp only [renderFrom, List.cons_append, List.cons.injEq] at split
    obtain ⟨pre, q, post, rfl, rfl, rfl⟩ := renderFrom_eq_append_cons split.2
    exact ⟨p :: pre, q, post, rfl, by rw [← split.1]; rfl, by simp [Nat.add_assoc]⟩

/-- An emitter that holds the lines of `pieces`, written from the first word, and counts their
words. -/
structure Emitter.Holds (e : Emitter) (pieces : List Piece) : Prop where
  lines : e.lines.toList = renderFrom e.annotate 0 pieces
  count : e.instCount = codeWidth pieces

theorem Emitter.Holds.emit {e : Emitter} {pieces : List Piece} (holds : e.Holds pieces)
    (p : Piece) : (e.emit p).Holds (pieces ++ [p]) := by
  rw [Emitter.emit_eq]
  constructor
  · simp [holds.lines, holds.count, renderFrom_append, renderFrom]
  · simp [holds.count]

theorem annotate_emitAll (e : Emitter) (pieces : List Piece) :
    (e.emitAll pieces).annotate = e.annotate := by
  induction pieces generalizing e with
  | nil => rfl
  | cons p rest ih =>
    rw [Emitter.emitAll, List.foldl_cons, ← Emitter.emitAll, ih, Emitter.emit_eq]

theorem Emitter.Holds.emitAll {e : Emitter} {pieces : List Piece} (holds : e.Holds pieces)
    (more : List Piece) : (e.emitAll more).Holds (pieces ++ more) := by
  induction more generalizing e pieces with
  | nil => simpa [Emitter.emitAll] using holds
  | cons p rest ih =>
    have next := ih (holds.emit p)
    rw [List.append_assoc, List.singleton_append] at next
    rwa [Emitter.emitAll, List.foldl_cons]

/-! ### The code of commands -/

/-- The code of commands written one after another, comparisons numbered from `serial`. -/
def codeFrom : Nat → List Command → List Piece
  | _, [] => []
  | serial, cmd :: rest =>
    cmd.lower serial ++ codeFrom (serial + if cmd.isComparison then 1 else 0) rest

theorem Emitter.Holds.put {e : Emitter} {pieces : List Piece} (holds : e.Holds pieces)
    (cmd : Command) : (e.put cmd).Holds (pieces ++ cmd.lower e.compareCount) := by
  have written := holds.emitAll (cmd.lower e.compareCount)
  unfold Emitter.put
  split
  · exact ⟨written.lines, written.count⟩
  · exact written

theorem annotate_put (e : Emitter) (cmd : Command) : (e.put cmd).annotate = e.annotate := by
  unfold Emitter.put
  split <;> exact annotate_emitAll e _

theorem Emitter.Holds.putAll {e : Emitter} {pieces : List Piece} (holds : e.Holds pieces)
    (cmds : List Command) : (cmds.foldl Emitter.put e).Holds (pieces ++ codeFrom e.compareCount cmds) := by
  induction cmds generalizing e pieces with
  | nil => simpa [codeFrom] using holds
  | cons cmd rest ih =>
    have next := ih (holds.put cmd)
    rw [compareCount_put, List.append_assoc] at next
    exact next

theorem annotate_putAll (e : Emitter) (cmds : List Command) :
    (cmds.foldl Emitter.put e).annotate = e.annotate := by
  induction cmds generalizing e with
  | nil => rfl
  | cons cmd rest ih => rw [List.foldl_cons, ih, annotate_put]

/-- The code a translation writes: the bootstrap code if asked for, then the code of every
command of the program, comparisons numbered in order. -/
def programCode (units : List SourceFile) (options : Options) : List Piece :=
  (if options.bootstrap then Code.bootstrap else []) ++ codeFrom 0 (units.flatMap SourceFile.commands)

/-- The emitter a translation finishes with. -/
def programEmitter (units : List SourceFile) (options : Options) : Emitter :=
  (units.flatMap SourceFile.commands).foldl Emitter.put (Emitter.start options)

/-- The lines of a translated program. -/
def programLines (units : List SourceFile) (options : Options) : List String :=
  renderFrom options.annotate 0 (programCode units options)

theorem annotate_start (options : Options) : (Emitter.start options).annotate = options.annotate := by
  unfold Emitter.start Emitter.bootstrap
  split
  · exact annotate_emitAll _ _
  · rfl

theorem Emitter.start_holds (options : Options) :
    (Emitter.start options).Holds (if options.bootstrap then Code.bootstrap else []) := by
  have empty : ({ annotate := options.annotate } : Emitter).Holds [] := ⟨rfl, rfl⟩
  unfold Emitter.start
  split
  · exact empty.emitAll Code.bootstrap
  · exact empty

theorem annotate_programEmitter (units : List SourceFile) (options : Options) :
    (programEmitter units options).annotate = options.annotate := by
  rw [programEmitter, annotate_putAll, annotate_start]

theorem programEmitter_holds (units : List SourceFile) (options : Options) :
    (programEmitter units options).Holds (programCode units options) := by
  have written := (Emitter.start_holds options).putAll (units.flatMap SourceFile.commands)
  rwa [(Emitter.start_reads options).2] at written

/-- A translation's text is the lines of the program's code, each ended by a line feed. -/
theorem translate_text {units : List SourceFile} {options : Options} {text : String}
    (translated : translate units options = .ok text) :
    text = "\n".intercalate (programLines units options) ++ "\n" := by
  obtain ⟨-, rfl⟩ := translate_eq_ok translated
  have lines := (programEmitter_holds units options).lines
  rw [annotate_programEmitter] at lines
  show (programEmitter units options).finish = _
  rw [Emitter.finish, lines, programLines]

theorem mem_renderFrom {annotate : Bool} {line : String} :
    ∀ {index : Nat} {pieces : List Piece}, line ∈ renderFrom annotate index pieces →
      ∃ p ∈ pieces, ∃ at_, line = p.line annotate at_
  | _, [], member => by cases member
  | index, p :: rest, member => by
    rcases List.mem_cons.mp member with rfl | later
    · exact ⟨p, List.mem_cons_self, index, rfl⟩
    · obtain ⟨q, inRest, at_, rfl⟩ := mem_renderFrom later
      exact ⟨q, List.mem_cons_of_mem p inRest, at_, rfl⟩

/-! ### Sound code -/

/-- Code every piece of which the assembler reads back as its statement. -/
def SoundCode (pieces : List Piece) : Prop :=
  ∀ p ∈ pieces, p.Sound

@[simp] theorem soundCode_nil : SoundCode [] :=
  fun _ member => nomatch member

@[simp] theorem soundCode_cons {p : Piece} {pieces : List Piece} :
    SoundCode (p :: pieces) ↔ p.Sound ∧ SoundCode pieces :=
  List.forall_mem_cons

@[simp] theorem soundCode_append {first second : List Piece} :
    SoundCode (first ++ second) ↔ SoundCode first ∧ SoundCode second :=
  List.forall_mem_append

@[simp] theorem sound_addr (name : String) : (Code.addr name).Sound ↔ isSymbol name = true :=
  Iff.rfl

@[simp] theorem sound_literal (n : Nat) : (Code.literal n).Sound ↔ n ≤ addressMax :=
  Iff.rfl

@[simp] theorem sound_assign (dest : Dest) (comp : Comp) : (Code.assign dest comp).Sound :=
  True.intro

@[simp] theorem sound_branchOn (comp : Comp) (jump : Jump) : (Code.branchOn comp jump).Sound :=
  True.intro

@[simp] theorem sound_label (name : String) : (Piece.label name).Sound ↔ isSymbol name = true :=
  Iff.rfl

@[simp] theorem sound_comment (text : String) : (Piece.comment text).Sound ↔ Text.OneLine text :=
  Iff.rfl

theorem isSymbol_tempRegister {i : UInt16} (small : i.toNat ≤ 65530) :
    isSymbol (Code.tempRegister i) = true := by
  rw [Code.tempRegister_of_le small]
  exact isSymbol_append (by decide) (symbolChars_toString _)

theorem isSymbol_pointerRegister (i : UInt16) : isSymbol (Code.pointerRegister i) = true := by
  unfold Code.pointerRegister
  split <;> decide

theorem isSymbol_register (base : Base) : isSymbol base.register = true := by
  cases base <;> decide

theorem compare_sound (serial : Nat) (jump : Jump) : SoundCode (Code.compare serial jump) := by
  -- simp writes a number's text as `Nat.repr`
  have onTrue : isSymbol ("__CMP" ++ serial.repr ++ "$TRUE") = true :=
    isSymbol_compare serial "$TRUE" (by decide)
  have done : isSymbol ("__CMP" ++ serial.repr ++ "$END") = true :=
    isSymbol_compare serial "$END" (by decide)
  simp +decide [Code.compare, Code.unary, onTrue, done]

theorem offset_sound (dest : Dest) {index : UInt16} (fits : index.toNat ≤ loadMax) :
    SoundCode (Code.offset dest index) := by
  have literal : index.toNat ≤ addressMax := fits
  unfold Code.offset
  split
  · exact soundCode_nil
  · split
    · simp
    · simp [literal]

theorem bootstrap_sound : SoundCode Code.bootstrap := by
  have comments : Text.OneLine "bootstrap" ∧ Text.OneLine "call Sys.init 0" :=
    ⟨Text.Inline.oneLine (by decide), Text.Inline.oneLine (by decide)⟩
  simp +decide [Code.bootstrap, Code.call, Code.pushD, Code.saved, Code.bootstrapReturn, comments]

section Lowering

variable {s : Scope} (fileSymbol : isSymbol s.file = true)
  (functionSymbol : isSymbol s.function = true)

include fileSymbol in
theorem slot_sound {access : Access} {slot : Slot} (named : slot.Named s access)
    (admitted : slot.Admitted access) (serial : Nat) :
    SoundCode ((Command.memory access slot).body serial) := by
  cases slot with
  | constant v =>
    obtain ⟨rfl, fits⟩ := admitted
    have literal : v.toNat ≤ addressMax := fits
    simp +decide [Command.body, Code.push, Code.pushD, literal]
  | static name =>
    obtain ⟨i, rfl⟩ : ∃ i : Nat, name = s.file ++ "." ++ toString i := named
    -- simp writes a number's text as `Nat.repr`
    have symbol : isSymbol (s.file ++ "." ++ i.repr) = true := by
      rw [String.append_assoc]
      exact isSymbol_append fileSymbol (symbolChars_append.mpr ⟨by decide, symbolChars_toString i⟩)
    cases access <;> simp +decide [Command.body, Code.push, Code.pop, Code.pushD, Code.popD, symbol]
  | temp i =>
    have small : i.toNat ≤ 65530 := Nat.le_trans (Nat.le_of_lt admitted) (by decide)
    cases access <;> simp +decide [Command.body, Code.push, Code.pop, Code.pushD, Code.popD,
      isSymbol_tempRegister small]
  | pointer i =>
    cases access <;> simp +decide [Command.body, Code.push, Code.pop, Code.pushD, Code.popD,
      isSymbol_pointerRegister]
  | frame base i =>
    have fits : i.toNat ≤ loadMax := admitted
    cases access <;> simp +decide [Command.body, Code.push, Code.pop, Code.pushD, Code.popD,
      isSymbol_register, offset_sound _ fits]

include fileSymbol functionSymbol in
/-- Every piece of the code of a command the reader gives is read back as its statement. -/
theorem lower_sound {cmd : Command} (named : cmd.Named s) (fits : cmd.Fits) (serial : Nat) :
    SoundCode (cmd.lower serial) := by
  rw [Command.lower, soundCode_cons]
  refine ⟨(inline_text fileSymbol functionSymbol named).oneLine, ?_⟩
  cases cmd with
  | arithmetic op =>
    cases op
    case eq | gt | lt => exact compare_sound serial _
    all_goals simp +decide [Command.body, Code.arithmetic, Code.binary, Code.unary]
  | memory access slot => exact slot_sound fileSymbol named fits serial
  | branch kind name =>
    obtain ⟨label, symbol, rfl⟩ := named
    have tail : SymbolChars ("$" ++ label) :=
      symbolChars_append.mpr ⟨by decide, symbolChars_of_isSymbol symbol⟩
    have inScope := isSymbol_scoped functionSymbol tail
    rw [← String.append_assoc] at inScope
    cases kind <;> simp +decide [Command.body, Code.popD, inScope]
  | define name locals =>
    have symbol : isSymbol name = true := named
    rw [Command.body, Code.define, soundCode_cons]
    refine ⟨symbol, fun p member => ?_⟩
    obtain ⟨block, repeated, inBlock⟩ := List.mem_flatten.mp member
    rw [(List.mem_replicate.mp repeated).2] at inBlock
    simp only [List.mem_cons, List.not_mem_nil, or_false] at inBlock
    rcases inBlock with rfl | rfl | rfl | rfl <;> simp +decide
  | call name args tag =>
    obtain ⟨symbol, rfl⟩ := named
    have room : args.toNat + 5 ≤ addressMax := fits
    have tail : SymbolChars ("$ret." ++ toString s.calls) :=
      symbolChars_append.mpr ⟨by decide, symbolChars_toString s.calls⟩
    have inScope := isSymbol_scoped functionSymbol tail
    rw [← String.append_assoc] at inScope
    -- simp writes a number's text as `Nat.repr`
    have tag : isSymbol (s.function ++ "$ret." ++ s.calls.repr) = true := inScope
    simp +decide [Command.body, Code.call, Code.pushD, Code.saved, tag, symbol, room]
  | ret => simp +decide [Command.body, Code.ret, Code.popD, Code.saved]

end Lowering

/-- The code of commands read in their scopes is sound. -/
theorem sound_codeFrom {view : List (Scope × Command)} (readable : ∀ p ∈ view, Readable p ∧ p.2.Fits)
    (serial : Nat) : SoundCode (codeFrom serial (view.map Prod.snd)) := by
  induction view generalizing serial with
  | nil => exact soundCode_nil
  | cons p rest ih =>
    obtain ⟨⟨fileSymbol, functionSymbol, named⟩, fits⟩ := readable p List.mem_cons_self
    rw [List.map_cons, codeFrom, soundCode_append]
    exact ⟨lower_sound fileSymbol functionSymbol named fits serial,
      ih (fun q member => readable q (List.mem_cons_of_mem _ member)) _⟩

theorem fits_of_mem_programView {units : List SourceFile}
    (reads : ∀ u ∈ units, u.read = .ok u.commands) {p : Scope × Command}
    (member : p ∈ programView units) : p.2.Fits := by
  obtain ⟨u, unit, inUnit⟩ := List.mem_flatMap.mp member
  obtain ⟨line, read⟩ := scoped_read (reads u unit) p inUnit
  exact read_fits read

/-- Every piece a translation writes is read back as its statement. -/
theorem sound_programCode {units : List SourceFile} (options : Options)
    (symbols : ∀ u ∈ units, isSymbol u.name = true)
    (reads : ∀ u ∈ units, u.read = .ok u.commands) : SoundCode (programCode units options) := by
  rw [programCode, soundCode_append, ← map_snd_programView]
  refine ⟨?_, sound_codeFrom (fun p member =>
    ⟨readable_of_mem_programView symbols reads member, fits_of_mem_programView reads member⟩) 0⟩
  split
  · exact bootstrap_sound
  · exact soundCode_nil

theorem sound_translate {units : List SourceFile} {options : Options} {text : String}
    (symbols : ∀ u ∈ units, isSymbol u.name = true)
    (translated : translate units options = .ok text) : SoundCode (programCode units options) :=
  sound_programCode options symbols (translate_eq_ok translated).1

/-- The lines of a translated text are the lines of its code, unless it has no code at all: then
the text is a lone line feed, which reads as one empty line. -/
theorem lines_translate {units : List SourceFile} {options : Options} {text : String}
    (symbols : ∀ u ∈ units, isSymbol u.name = true)
    (translated : translate units options = .ok text) :
    Text.lines text = if programCode units options = [] then [""] else programLines units options := by
  have joined := translate_text translated
  split
  · rename_i empty
    rw [programLines, empty] at joined
    rw [joined]
    simp [renderFrom, Text.lines, Text.linesFrom, Text.closeLine]
  · rename_i code
    have sound := sound_translate symbols translated
    have nonempty : programLines units options ≠ [] := by
      rw [programLines, ← List.length_pos_iff, length_renderFrom, List.length_pos_iff]
      exact code
    rw [joined]
    refine Text.lines_join _ nonempty fun line member => ?_
    obtain ⟨p, inCode, at_, rfl⟩ := mem_renderFrom member
    exact (sound p inCode).clean.oneLine_line _ _

end Hack.Vm
