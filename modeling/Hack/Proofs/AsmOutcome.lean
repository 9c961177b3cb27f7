import Hack.Proofs.AsmLabels
/-! What an assembly comes to: its only failures once every line reads, its words line by line, and
its independence from what it does not read. -/

set_option autoImplicit false

namespace Hack

/-- An error without the text of its line: the file, the line number and the error. -/
def Located.site {ε : Type} (e : Located ε) : String × Nat × ε :=
  (e.file, e.line, e.error)

@[simp] theorem mapError_error {ε ε' α : Type} (f : ε → ε') (e : ε) :
    (Except.error e : Except ε α).mapError f = .error (f e) := rfl

@[simp] theorem mapError_ok {ε ε' α : Type} (f : ε → ε') (a : α) :
    (Except.ok a : Except ε α).mapError f = .ok a := rfl

end Hack

namespace Hack.Asm

/-! ### Failures -/

theorem readError_of_read {before : List SourceLine} {line : SourceLine} {e : LineError}
    {stmt : Option Stmt} (read : line.read before = .ok stmt)
    (found : readError before line = some e) : e.error = .programTooLarge := by
  unfold readError at found
  rw [read] at found
  cases stmt with
  | none => cases found
  | some st =>
    dsimp only at found
    split at found
    · cases found
      rfl
    · cases found

theorem labelClash_error {before : List Line} {line : Line} {e : LineError}
    (found : labelClash before line = some e) :
    ∃ name previous, e.error = .redefinedLabel name previous := by
  unfold labelClash at found
  split at found
  · rename_i name _ _
    obtain ⟨previous, -, rfl⟩ := Option.map_eq_some_iff.mp found
    exact ⟨name, previous, rfl⟩
  · cases found

theorem overflow_error {prog : List Line} {line : Line} {e : LineError}
    (found : overflow prog line = some e) : ∃ name, e.error = .variableOverflow name := by
  unfold overflow at found
  split at found
  · rename_i name _
    split at found
    · cases found
      exact ⟨name, rfl⟩
    · cases found
  · cases found

/-- A program all of whose lines read fails to assemble only when it does not fit the ROM, when a
label repeats a name, or when a variable would reach the screen map. -/
theorem assembleReference_error {files : List (String × String)} {e : LineError}
    (reads : ∀ line ∈ sourceLines files, ∀ pc, ∃ stmt, Stmt.parse line.raw pc = .ok stmt)
    (failed : assembleReference files = .error e) :
    e.error = .programTooLarge ∨ (∃ name previous, e.error = .redefinedLabel name previous) ∨
      ∃ name, e.error = .variableOverflow name := by
  unfold assembleReference at failed
  dsimp only at failed
  split at failed
  · rename_i issue
    cases failed
    obtain ⟨before, line, member, found⟩ := firstIssue_eq_some issue
    obtain ⟨stmt, read⟩ := reads line member (wordCount before).toUInt16
    exact .inl (readError_of_read read found)
  · split at failed
    · rename_i clash
      cases failed
      obtain ⟨before, line, -, found⟩ := firstIssue_eq_some clash
      exact .inr (.inl (labelClash_error found))
    · split at failed
      · rename_i overflowed
        cases failed
        obtain ⟨line, -, found⟩ := List.exists_of_findSome?_eq_some overflowed
        exact .inr (.inr (overflow_error found))
      · cases failed

/-! ### Words -/

theorem isSome_word (prog : List Line) (st : Stmt) : (word prog st).isSome = st.isInst := by
  cases st with
  | load operand => cases operand <;> rfl
  | compute => rfl
  | label => rfl

/-- A line that reads gives a word exactly when its code is an instruction. -/
theorem isSome_toLine_word {before : List SourceLine} {line : SourceLine}
    (clean : readError before line = none) (prog : List Line) :
    ((line.toLine before).stmt.bind (word prog)).isSome = isInstCode (lineCode line.raw) := by
  unfold readError at clean
  unfold SourceLine.toLine
  cases read : line.read before with
  | error err =>
    rw [read] at clean
    cases clean
  | ok stmt =>
    cases stmt with
    | none =>
      rw [Stmt.parse_eq_none read]
      rfl
    | some st =>
      rw [Option.bind_some, isSome_word]
      exact (Stmt.parse_eq_some read).1

/-- Lines that all read give one word for each instruction line among them. -/
theorem length_filterMap_program {before lines : List SourceLine}
    (clean : firstIssue readError before lines = none) (prog : List Line) :
    ((mapAfter SourceLine.toLine before lines).filterMap fun line => line.stmt.bind (word prog)).length =
      wordCount lines := by
  induction lines generalizing before with
  | nil => rfl
  | cons line rest ih =>
    rw [firstIssue_cons, Option.or_eq_none_iff] at clean
    have here := isSome_toLine_word clean.1 prog
    have counted : wordCount (line :: rest) = wordCount [line] + wordCount rest :=
      wordCount_append [line] rest
    rw [mapAfter_cons, List.filterMap_cons, counted, wordCount_singleton, ← ih clean.2]
    cases found : (line.toLine before).stmt.bind (word prog) with
    | none =>
      rw [found] at here
      simp [← here]
    | some w =>
      rw [found] at here
      simp [← here, Nat.add_comm]

/-- A program assembles when all its lines read, no label repeats a name and no variable reaches
the screen map; its words are then those of its statements, in order. -/
theorem assembleReference_eq_ok {files : List (String × String)} {words : List UInt16}
    (assembled : assembleReference files = .ok words) :
    firstIssue readError [] (sourceLines files) = none ∧
      firstIssue labelClash [] (program (sourceLines files)) = none ∧
      (program (sourceLines files)).findSome? (overflow (program (sourceLines files))) = none ∧
      words = (program (sourceLines files)).filterMap fun line =>
        line.stmt.bind (word (program (sourceLines files))) := by
  unfold assembleReference at assembled
  dsimp only at assembled
  split at assembled
  · cases assembled
  · rename_i clean
    split at assembled
    · cases assembled
    · rename_i distinct
      split at assembled
      · cases assembled
      · rename_i fits
        cases assembled
        exact ⟨clean, distinct, fits, rfl⟩

/-- A program that assembles gives one word for each of its instruction lines. -/
theorem length_assembleReference {files : List (String × String)} {words : List UInt16}
    (assembled : assembleReference files = .ok words) : words.length = wordCount (sourceLines files) := by
  obtain ⟨clean, -, -, rfl⟩ := assembleReference_eq_ok assembled
  exact length_filterMap_program clean _

/-- When a program assembles, its instruction line `k` gives word `k`: the line standing after
the lines `before` gives the word with the index `wordCount before`. -/
theorem assembleReference_getElem? {files : List (String × String)} {words : List UInt16}
    (assembled : assembleReference files = .ok words) {before after : List SourceLine}
    {line : SourceLine} (split : sourceLines files = before ++ line :: after)
    (inst : isInstCode (lineCode line.raw) = true) :
    ∃ w, (line.toLine before).stmt.bind (word (program (sourceLines files))) = some w ∧
      words[wordCount before]? = some w := by
  obtain ⟨clean, -, -, rfl⟩ := assembleReference_eq_ok assembled
  generalize hprog : program (sourceLines files) = prog
  have shape : prog = mapAfter SourceLine.toLine [] before ++
      line.toLine before :: mapAfter SourceLine.toLine (before ++ [line]) after := by
    rw [← hprog, program, split, mapAfter_append, List.nil_append, mapAfter_cons]
  rw [split, firstIssue_append, Option.or_eq_none_iff, List.nil_append, firstIssue_cons,
    Option.or_eq_none_iff] at clean
  obtain ⟨w, found⟩ := Option.isSome_iff_exists.mp
    ((isSome_toLine_word clean.2.1 prog).trans inst)
  have counted := length_filterMap_program clean.1 prog
  refine ⟨w, found, ?_⟩
  -- the word function reads the whole program; only the list it runs over is split
  generalize hf : (fun line : Line => line.stmt.bind (word prog)) = f at counted ⊢
  have here : f (line.toLine before) = some w := by
    rw [← hf]
    exact found
  rw [shape, List.filterMap_append, List.filterMap_cons, here]
  dsimp only
  rw [List.getElem?_append_right (Nat.le_of_eq counted), counted, Nat.sub_self]
  rfl

/-! ### Scans along lists that look alike -/

section Scans

variable {α β γ δ : Type}

/-- A scan for the first issue answers alike on two lists that look alike, when each check does. -/
theorem firstIssue_congr (view : α → γ) (out : β → δ) {check : List α → α → Option β}
    (step : ∀ {pre pre' : List α} {x x' : α}, pre.map view = pre'.map view → view x = view x' →
      (check pre x).map out = (check pre' x').map out) :
    ∀ {before before' xs xs' : List α}, before.map view = before'.map view →
      xs.map view = xs'.map view →
      (firstIssue check before xs).map out = (firstIssue check before' xs').map out := by
  intro before before' xs
  induction xs generalizing before before' with
  | nil =>
    intro xs' _ same
    rw [List.map_nil, eq_comm, List.map_eq_nil_iff] at same
    rw [same]
    rfl
  | cons x rest ih =>
    intro xs' sameBefore same
    obtain ⟨x', rest', rfl, headSame, restSame⟩ := List.map_eq_cons_iff.mp same.symm
    have sameAfter : (before ++ [x]).map view = (before' ++ [x']).map view := by
      simp [sameBefore, headSame]
    rw [firstIssue_cons, firstIssue_cons, Option.map_or, Option.map_or,
      step sameBefore headSame.symm, ih sameAfter restSame.symm]

/-- A map along a list with what stands before answers alike on two lists that look alike, when
each step does. -/
theorem mapAfter_congr (view : α → γ) (out : β → δ) {f : List α → α → β}
    (step : ∀ {pre pre' : List α} {x x' : α}, pre.map view = pre'.map view → view x = view x' →
      out (f pre x) = out (f pre' x')) :
    ∀ {before before' xs xs' : List α}, before.map view = before'.map view →
      xs.map view = xs'.map view → (mapAfter f before xs).map out = (mapAfter f before' xs').map out := by
  intro before before' xs
  induction xs generalizing before before' with
  | nil =>
    intro xs' _ same
    rw [List.map_nil, eq_comm, List.map_eq_nil_iff] at same
    rw [same]
    rfl
  | cons x rest ih =>
    intro xs' sameBefore same
    obtain ⟨x', rest', rfl, headSame, restSame⟩ := List.map_eq_cons_iff.mp same.symm
    have sameAfter : (before ++ [x]).map view = (before' ++ [x']).map view := by
      simp [sameBefore, headSame]
    rw [mapAfter_cons, mapAfter_cons, List.map_cons, List.map_cons,
      step sameBefore headSame.symm, ih sameAfter restSame.symm]

theorem findSome?_congr (view : α → γ) (out : β → δ) {f f' : α → Option β}
    (step : ∀ {x x' : α}, view x = view x' → (f x).map out = (f' x').map out) :
    ∀ {xs xs' : List α}, xs.map view = xs'.map view →
      (xs.findSome? f).map out = (xs'.findSome? f').map out := by
  intro xs
  induction xs with
  | nil =>
    intro xs' same
    rw [List.map_nil, eq_comm, List.map_eq_nil_iff] at same
    rw [same]
    rfl
  | cons x rest ih =>
    intro xs' same
    obtain ⟨x', rest', rfl, headSame, restSame⟩ := List.map_eq_cons_iff.mp same.symm
    have here := step headSame.symm
    rw [List.findSome?_cons, List.findSome?_cons]
    cases found : f x <;> cases found' : f' x' <;> rw [found, found'] at here
    · exact ih restSame.symm
    · cases here
    · cases here
    · exact here

theorem filterMap_congr_view (view : α → γ) {f f' : α → Option β}
    (step : ∀ {x x' : α}, view x = view x' → f x = f' x') :
    ∀ {xs xs' : List α}, xs.map view = xs'.map view → xs.filterMap f = xs'.filterMap f' := by
  intro xs
  induction xs with
  | nil =>
    intro xs' same
    rw [List.map_nil, eq_comm, List.map_eq_nil_iff] at same
    rw [same]
    rfl
  | cons x rest ih =>
    intro xs' same
    obtain ⟨x', rest', rfl, headSame, restSame⟩ := List.map_eq_cons_iff.mp same.symm
    rw [List.filterMap_cons, List.filterMap_cons, step headSame.symm, ih restSame.symm]

end Scans

/-! ### What the assembler reads of a line -/

/-- What the assembler reads of a source line: its file, its index and its code. -/
def SourceLine.code (line : SourceLine) : String × Nat × List Char :=
  (line.file, line.index, lineCode line.raw)

/-- What the assembler keeps of a read line besides its text. -/
def Line.view (line : Line) : String × Nat × Option Stmt × Option UInt16 :=
  (line.file, line.index, line.stmt, line.pc)

theorem Stmt.parse_congr {raw raw' : String} (same : lineCode raw = lineCode raw') (pc : UInt16) :
    Stmt.parse raw pc = Stmt.parse raw' pc := by
  unfold Stmt.parse
  rw [same]

theorem wordCount_congr {lines lines' : List SourceLine}
    (same : lines.map SourceLine.code = lines'.map SourceLine.code) :
    wordCount lines = wordCount lines' := by
  have counts : ∀ ls : List SourceLine,
      wordCount ls = (ls.map SourceLine.code).countP fun c => isInstCode c.2.2 := by
    intro ls
    rw [wordCount, ← List.countP_eq_length_filter, List.countP_map]
    rfl
  rw [counts, counts, same]

section Lines

variable {before before' : List SourceLine} {line line' : SourceLine}
  (sameBefore : before.map SourceLine.code = before'.map SourceLine.code)
  (same : line.code = line'.code)

include sameBefore same in
theorem read_congr : line.read before = line'.read before' := by
  unfold SourceLine.read
  rw [wordCount_congr sameBefore, Stmt.parse_congr (congrArg (fun c => c.2.2) same)]

include sameBefore same in
theorem readError_congr :
    (readError before line).map Located.site = (readError before' line').map Located.site := by
  have file : line.file = line'.file := congrArg Prod.fst same
  have index : line.index = line'.index := congrArg (fun c => c.2.1) same
  unfold readError
  rw [read_congr sameBefore same, wordCount_congr sameBefore]
  cases line'.read before' with
  | error e => simp [Located.site, Located.at, file, index]
  | ok stmt =>
    cases stmt with
    | none => rfl
    | some st =>
      dsimp only
      split <;> simp [Located.site, Located.at, file, index]

include sameBefore same in
theorem view_toLine : (line.toLine before).view = (line'.toLine before').view := by
  have code : lineCode line.raw = lineCode line'.raw := congrArg (fun c => c.2.2) same
  have file : line.file = line'.file := congrArg Prod.fst same
  have index : line.index = line'.index := congrArg (fun c => c.2.1) same
  simp only [SourceLine.toLine, Line.view, read_congr sameBefore same,
    wordCount_congr sameBefore, code, file, index]

end Lines

theorem stmt_eq_of_view {line line' : Line} (same : line.view = line'.view) :
    line.stmt = line'.stmt :=
  congrArg (fun v => v.2.2.1) same

section Program

variable {prog prog' : List Line} (same : prog.map Line.view = prog'.map Line.view)

include same in
theorem labels_congr : labels prog = labels prog' := by
  unfold labels
  refine filterMap_congr_view Line.view (fun seen => ?_) same
  rw [stmt_eq_of_view seen]

include same in
theorem operands_congr : operands prog = operands prog' := by
  unfold operands
  refine filterMap_congr_view Line.view (fun seen => ?_) same
  rw [stmt_eq_of_view seen]

include same in
theorem bindings_congr : bindings prog = bindings prog' := by
  unfold bindings
  rw [labels_congr same]

include same in
theorem unbound_congr : unbound prog = unbound prog' := by
  funext name
  unfold unbound
  rw [bindings_congr same]

include same in
theorem address_congr : address prog = address prog' := by
  funext name
  unfold address allVariables variablesIn
  rw [labels_congr same, operands_congr same, unbound_congr same]

include same in
theorem word_congr : word prog = word prog' := by
  funext st
  unfold word
  rw [address_congr same]

include same in
theorem words_congr :
    prog.filterMap (fun line => line.stmt.bind (word prog)) =
      prog'.filterMap (fun line => line.stmt.bind (word prog')) := by
  refine filterMap_congr_view Line.view (fun seen => ?_) same
  rw [stmt_eq_of_view seen, word_congr same]

include same in
theorem overflow_congr {line line' : Line} (seen : line.view = line'.view) :
    (overflow prog line).map Located.site = (overflow prog' line').map Located.site := by
  have file : line.file = line'.file := congrArg Prod.fst seen
  have index : line.index = line'.index := congrArg (fun v => v.2.1) seen
  unfold overflow
  rw [stmt_eq_of_view seen, unbound_congr same, address_congr same]
  split
  · split <;> simp [Line.fail, Located.site, Located.at, file, index]
  · rfl

end Program

theorem labelClash_congr {pre pre' : List Line} {line line' : Line}
    (samePre : pre.map Line.view = pre'.map Line.view) (seen : line.view = line'.view) :
    (labelClash pre line).map Located.site = (labelClash pre' line').map Located.site := by
  have file : line.file = line'.file := congrArg Prod.fst seen
  have index : line.index = line'.index := congrArg (fun v => v.2.1) seen
  unfold labelClash
  rw [stmt_eq_of_view seen, bindings_congr samePre]
  split
  · simp [Option.map_map, Function.comp_def, Line.fail, Located.site, Located.at, file, index]
  · rfl

/-- Two answers that agree on their sites: both some, or both none. -/
theorem site_cases {o o' : Option LineError} (same : o.map Located.site = o'.map Located.site) :
    (∃ e e', o = some e ∧ o' = some e' ∧ e.site = e'.site) ∨ (o = none ∧ o' = none) := by
  cases o <;> cases o'
  · exact .inr ⟨rfl, rfl⟩
  · cases same
  · cases same
  · rename_i e e'
    exact .inl ⟨e, e', rfl, rfl, Option.some.inj same⟩

/-- What the assembler reads of a line is its file, its index and its code: two programs whose
lines agree on these assemble to the same words, or fail at the same line with the same error. -/
theorem assembleReference_congr {files files' : List (String × String)}
    (same : (sourceLines files).map SourceLine.code = (sourceLines files').map SourceLine.code) :
    (assembleReference files).mapError Located.site =
      (assembleReference files').mapError Located.site := by
  have reads := firstIssue_congr SourceLine.code Located.site readError_congr
    (rfl : ([] : List SourceLine).map SourceLine.code = [].map SourceLine.code) same
  have progs : (program (sourceLines files)).map Line.view =
      (program (sourceLines files')).map Line.view :=
    mapAfter_congr SourceLine.code Line.view view_toLine rfl same
  have clashes := firstIssue_congr Line.view Located.site labelClash_congr
    (rfl : ([] : List Line).map Line.view = [].map Line.view) progs
  have overflows := findSome?_congr Line.view Located.site (overflow_congr progs) progs
  unfold assembleReference
  dsimp only
  rcases site_cases reads with ⟨e, e', first, first', sites⟩ | ⟨first, first'⟩
  · rw [first, first']
    rw [mapError_error, mapError_error, sites]
  rw [first, first']
  dsimp only
  rcases site_cases clashes with ⟨e, e', clash, clash', sites⟩ | ⟨clash, clash'⟩
  · rw [clash, clash']
    rw [mapError_error, mapError_error, sites]
  rw [clash, clash']
  dsimp only
  rcases site_cases overflows with ⟨e, e', overflowed, overflowed', sites⟩ | ⟨overflowed, overflowed'⟩
  · rw [overflowed, overflowed']
    rw [mapError_error, mapError_error, sites]
  rw [overflowed, overflowed', words_congr progs]

/-! ### One file -/

theorem sourceLines_single (file source : String) :
    sourceLines [(file, source)] = fileLines file source := by
  simp [sourceLines]

theorem raws_fileLines (file source : String) :
    (fileLines file source).map SourceLine.raw = Text.lines source := by
  rw [fileLines, List.map_map]
  conv => rhs; rw [← List.zipIdx_map_fst 0 (Text.lines source)]
  rfl

theorem codes_fileLines (file source : String) :
    (fileLines file source).map SourceLine.code =
      ((Text.lines source).map lineCode).zipIdx.map fun (code, index) => (file, index, code) := by
  rw [fileLines, List.map_map, List.zipIdx_map, List.map_map]
  rfl

theorem assembleReference_of_assemble {file source : String} {words : Array UInt16}
    (assembled : assemble file source = .ok words) :
    assembleReference [(file, source)] = .ok words.toList := by
  rw [← assemble_reference, assembled]
  rfl

/-- Two texts whose lines have the same code, one for one, assemble alike: to the same words, or
to the same error at the same line. -/
theorem assemble_congr {file text text' : String}
    (same : (Text.lines text).map lineCode = (Text.lines text').map lineCode) :
    (assemble file text).mapError Located.site = (assemble file text').mapError Located.site := by
  have reference : (assembleReference [(file, text)]).mapError Located.site =
      (assembleReference [(file, text')]).mapError Located.site := assembleReference_congr
    (by rw [sourceLines_single, sourceLines_single, codes_fileLines, codes_fileLines, same])
  rw [← assemble_reference, ← assemble_reference] at reference
  cases first : assemble file text <;> cases second : assemble file text' <;>
    rw [first, second] at reference <;>
    simp_all [Except.map, ← Array.toList_inj]

end Hack.Asm
