import Hack.Proofs.AsmPasses
/-! The labels an assembly text defines, and why a text whose labels are new and distinct is never
refused for a label clash. -/

set_option autoImplicit false

namespace Hack.Text

/-- A text that stays on one line: it holds no line feed and no carriage return. -/
def OneLine (text : String) : Prop :=
  '\n' ∉ text.toList ∧ '\r' ∉ text.toList

theorem linesFrom_append (l rest line : List Char) (done : List String) (noFeed : '\n' ∉ l) :
    linesFrom (l ++ rest) line done = linesFrom rest (l.reverse ++ line) done := by
  induction l generalizing line with
  | nil => rfl
  | cons c l ih =>
    have notFeed : c ≠ '\n' := fun h => noFeed (by simp [h])
    rw [List.cons_append, linesFrom, ih _ (fun h => noFeed (List.mem_cons_of_mem c h))]
    · simp
    · exact notFeed

theorem closeLine_reverse (l : List Char) (noReturn : '\r' ∉ l) :
    closeLine l.reverse = String.ofList l := by
  cases h : l.reverse with
  | nil =>
    rw [List.reverse_eq_nil_iff.mp h]
    rfl
  | cons c rest =>
    have member : c ∈ l := List.mem_reverse.mp (by simp [h])
    have notReturn : c ≠ '\r' := fun e => noReturn (e ▸ member)
    rw [closeLine.eq_2 _ (by simpa using notReturn), ← h, List.reverse_reverse]

theorem linesFrom_lines (ls : List String) (oneLine : ∀ l ∈ ls, OneLine l) (rest : List Char)
    (done : List String) :
    linesFrom ((ls.map fun l => l.toList ++ ['\n']).flatten ++ rest) [] done =
      linesFrom rest [] (ls.reverse ++ done) := by
  induction ls generalizing done with
  | nil => rfl
  | cons l ls ih =>
    obtain ⟨noFeed, noReturn⟩ := oneLine l (by simp)
    rw [List.map_cons, List.flatten_cons, List.append_assoc, List.append_assoc,
      linesFrom_append _ _ _ _ noFeed, List.singleton_append, linesFrom, List.append_nil,
      closeLine_reverse _ noReturn, String.ofList_toList, ih (fun m member => oneLine m (by simp [member]))]
    simp

theorem intercalate_append_sep {α : Type} (sep : List α) :
    ∀ (xs : List (List α)), xs ≠ [] → sep.intercalate xs ++ sep = (xs.map (· ++ sep)).flatten
  | [], nonempty => absurd rfl nonempty
  | [x], _ => by simp
  | x :: y :: rest, _ => by
    rw [List.intercalate_cons_cons, List.append_assoc, List.append_assoc,
      intercalate_append_sep sep (y :: rest) (by simp)]
    simp

/-- Lines joined with a line feed after each are read back as the same lines. -/
theorem lines_join (ls : List String) (nonempty : ls ≠ []) (oneLine : ∀ l ∈ ls, OneLine l) :
    lines ("\n".intercalate ls ++ "\n") = ls := by
  have joined : ("\n".intercalate ls ++ "\n").toList =
      (ls.map fun l => l.toList ++ ['\n']).flatten := by
    rw [String.toList_append, String.toList_intercalate,
      intercalate_append_sep _ _ (by simpa using nonempty), List.map_map]
    rfl
  rw [lines, joined, ← List.append_nil (List.flatten _), linesFrom_lines ls oneLine]
  simp [linesFrom]

end Hack.Text

namespace Hack.Asm

/-- The label a line of assembly defines, if it defines one. -/
def lineLabel? (raw : String) : Option String :=
  match Stmt.parse raw 0 with
  | .ok (some (.label name _)) => some name
  | _ => none

/-- The labels an assembly text defines, in order. -/
def definedLabels (source : String) : List String :=
  (Text.lines source).filterMap lineLabel?

theorem Stmt.parse_eq_label {raw name : String} {pc p : UInt16}
    (parsed : Stmt.parse raw pc = .ok (some (.label name p))) :
    lineCode raw = '(' :: name.toList ++ [')'] ∧ isSymbol name := by
  unfold Stmt.parse at parsed
  split at parsed
  · cases parsed
  · rename_i operand _
    cases h : Operand.parse (String.ofList operand) <;> simp [h, Except.map] at parsed
  · rename_i rest shape
    split at parsed
    · rename_i body reversed
      split at parsed
      · rename_i symbol
        cases parsed
        have unreversed : rest = body.reverse ++ [')'] := by
          rw [← List.reverse_reverse rest, reversed, List.reverse_cons]
        exact ⟨by simp [shape, unreversed], by simpa [isSymbol] using symbol⟩
      · cases parsed
    · cases parsed
  · cases h : parseCompute (lineCode raw) with
    | error e => simp [h, Except.map] at parsed
    | ok st =>
      obtain ⟨dest, comp, jump, rfl⟩ := parseCompute_ok h
      simp [h, Except.map] at parsed

theorem Stmt.parse_of_labelCode {raw name : String} (pc : UInt16)
    (code : lineCode raw = '(' :: name.toList ++ [')']) (symbol : isSymbol name) :
    Stmt.parse raw pc = .ok (some (.label name pc)) := by
  unfold Stmt.parse
  rw [code]
  split
  · rename_i shape
    cases shape
  · rename_i shape
    cases shape
  · rename_i rest shape
    cases shape
    simp only [List.append_eq, List.reverse_append, List.reverse_cons, List.reverse_nil,
      List.nil_append, List.singleton_append, List.reverse_reverse, String.ofList_toList]
    rw [if_pos (by simpa [isSymbol] using symbol)]
  · rename_i notEmpty notLoad notLabel
    exact absurd rfl (notLabel _)

/-- Which label a line defines does not hang on the index it is read at. -/
theorem lineLabel?_eq (raw : String) (pc : UInt16) :
    (match Stmt.parse raw pc with
      | .ok (some (.label name _)) => some name
      | _ => none) = lineLabel? raw := by
  unfold lineLabel?
  by_cases labelled : ∃ name p, Stmt.parse raw pc = .ok (some (.label name p))
  · obtain ⟨name, p, atPc⟩ := labelled
    obtain ⟨code, symbol⟩ := Stmt.parse_eq_label atPc
    rw [atPc, Stmt.parse_of_labelCode 0 code symbol]
  · have notAtZero : ¬ ∃ name p, Stmt.parse raw 0 = .ok (some (.label name p)) := by
      rintro ⟨name, p, atZero⟩
      obtain ⟨code, symbol⟩ := Stmt.parse_eq_label atZero
      exact labelled ⟨name, pc, Stmt.parse_of_labelCode pc code symbol⟩
    split
    · rename_i name p atPc
      exact absurd ⟨name, p, atPc⟩ labelled
    · split
      · rename_i name p atZero
        exact absurd ⟨name, p, atZero⟩ notAtZero
      · rfl

/-- The label names of a read program are the labels its lines define. -/
theorem labels_mapAfter (before lines : List SourceLine) :
    (labels (mapAfter SourceLine.toLine before lines)).map Prod.fst =
      lines.filterMap fun line => lineLabel? line.raw := by
  induction lines generalizing before with
  | nil => rfl
  | cons line rest ih =>
    have head : (labels [line.toLine before]).map Prod.fst = (lineLabel? line.raw).toList := by
      rw [← lineLabel?_eq line.raw (wordCount before).toUInt16]
      simp only [labels, SourceLine.toLine, SourceLine.read]
      cases Stmt.parse line.raw (wordCount before).toUInt16 with
      | error e => rfl
      | ok st =>
        cases st with
        | none => rfl
        | some st => cases st <;> rfl
    rw [mapAfter_cons, ← List.singleton_append, labels_append, List.map_append, head, ih]
    cases found : lineLabel? line.raw <;> simp [found]

/-- A program whose labels are all new names, none predefined, has no label clash. -/
theorem firstIssue_labelClash (before rest : List Line)
    (apart : ((labels (before ++ rest)).map Prod.fst).Nodup)
    (fresh : ∀ name ∈ (labels rest).map Prod.fst, predefined.lookup name = none) :
    firstIssue labelClash before rest = none := by
  induction rest generalizing before with
  | nil => rfl
  | cons line rest ih =>
    have later : firstIssue labelClash (before ++ [line]) rest = none := by
      refine ih _ (by simpa using apart) fun name member => fresh name ?_
      rw [← List.singleton_append, labels_append, List.map_append]
      exact List.mem_append_right _ member
    rw [firstIssue_cons, later, Option.or_none]
    unfold labelClash
    split
    · rename_i name pc named
      have own : (labels [line]).map Prod.fst = [name] := by simp [labels, named]
      rw [← List.singleton_append, labels_append, labels_append, List.map_append,
        List.map_append, own] at apart
      have unseen : name ∉ (labels before).map Prod.fst := fun seen =>
        (List.nodup_append.mp apart).2.2 name seen name (by simp) rfl
      have notPredefined : predefined.lookup name = none := by
        refine fresh name ?_
        rw [← List.singleton_append, labels_append, List.map_append, own]
        simp
      rw [Option.map_eq_none_iff, bindings, List.lookup_append, notPredefined, Option.none_or,
        List.lookup_eq_none_iff]
      intro entry member
      have differ : name ≠ entry.1 := fun same => unseen (same ▸ List.mem_map_of_mem member)
      simpa using differ
    · rfl

theorem firstIssue_eq_some {α β : Type} {check : List α → α → Option β} {before xs : List α}
    {issue : β} (found : firstIssue check before xs = some issue) :
    ∃ pre, ∃ x ∈ xs, check pre x = some issue := by
  induction xs generalizing before with
  | nil => cases found
  | cons x rest ih =>
    rw [firstIssue_cons] at found
    cases here : check before x with
    | none =>
      rw [here, Option.none_or] at found
      obtain ⟨pre, y, member, checked⟩ := ih found
      exact ⟨pre, y, List.mem_cons_of_mem x member, checked⟩
    | some e =>
      rw [here, Option.some_or] at found
      exact ⟨before, x, List.mem_cons_self, here ▸ found ▸ rfl⟩

theorem Operand.parse_error_ne {text : String} {err : Error} (failed : Operand.parse text = .error err)
    (name : String) (previous : UInt16) : err ≠ .redefinedLabel name previous := by
  simp only [Operand.parse] at failed
  split at failed
  · split at failed <;> cases failed
    simp
  · split at failed <;> cases failed
    simp

theorem parseCompute_error_ne {code : List Char} {err : Error} (failed : parseCompute code = .error err)
    (name : String) (previous : UInt16) : err ≠ .redefinedLabel name previous := by
  have parts : parseCompute.parseParts code = .error err → err ≠ .redefinedLabel name previous := by
    intro h
    simp only [parseCompute.parseParts] at h
    split at h
    · cases h
    · cases h
      simp
  unfold parseCompute at failed
  split at failed
  · split at failed
    · cases failed
      simp
    · exact parts failed
  · exact parts failed

/-- Reading a line never fails with a label clash: that is found only once all lines are read. -/
theorem Stmt.parse_error_ne {raw : String} {pc : UInt16} {err : Error}
    (failed : Stmt.parse raw pc = .error err) (name : String) (previous : UInt16) :
    err ≠ .redefinedLabel name previous := by
  unfold Stmt.parse at failed
  split at failed
  · cases failed
  · rename_i operand _
    cases h : Operand.parse (String.ofList operand) with
    | error e =>
      simp only [h, Except.map] at failed
      cases failed
      exact Operand.parse_error_ne h name previous
    | ok o => simp [h, Except.map] at failed
  · split at failed
    · split at failed <;> cases failed
      simp
    · cases failed
      simp
  · cases h : parseCompute (lineCode raw) with
    | error e =>
      simp only [h, Except.map] at failed
      cases failed
      exact parseCompute_error_ne h name previous
    | ok o => simp [h, Except.map] at failed

theorem labels_program (file source : String) :
    (labels (program (sourceLines [(file, source)]))).map Prod.fst = definedLabels source := by
  simp only [program, labels_mapAfter, sourceLines, List.flatMap_cons, List.flatMap_nil,
    List.append_nil, fileLines, List.filterMap_map]
  rw [definedLabels]
  conv => rhs; rw [← List.zipIdx_map_fst 0 (Text.lines source)]
  rw [List.filterMap_map]
  rfl

/-- An assembly text whose labels are new names, each defined once, never fails with a label
clash. -/
theorem assemble_error_ne_redefined (file source : String)
    (apart : (definedLabels source).Nodup)
    (fresh : ∀ name ∈ definedLabels source, predefined.lookup name = none)
    (e : LineError) (failed : assemble file source = .error e) (name : String)
    (previous : UInt16) : e.error ≠ .redefinedLabel name previous := by
  have reference : assembleReference [(file, source)] = .error e := by
    rw [← assemble_reference, failed]
    rfl
  simp only [assembleReference] at reference
  split at reference
  · rename_i issue readIssue
    cases reference
    obtain ⟨before, line, -, readFailed⟩ := firstIssue_eq_some readIssue
    unfold readError at readFailed
    split at readFailed
    · rename_i err parseFailed
      cases readFailed
      exact Stmt.parse_error_ne parseFailed name previous
    · split at readFailed
      · cases readFailed
        simp [Located.at]
      · cases readFailed
    · cases readFailed
  · have noClash := firstIssue_labelClash [] (program (sourceLines [(file, source)]))
      (by rw [List.nil_append, labels_program]; exact apart)
      (by rw [labels_program]; exact fresh)
    simp only [noClash] at reference
    split at reference
    · rename_i issue overflowed
      cases reference
      obtain ⟨-, line, -, -, overflows, -⟩ := List.findSome?_eq_some_iff.mp overflowed
      unfold overflow at overflows
      split at overflows
      · split at overflows
        · cases overflows
          simp [Line.fail, Located.at]
        · cases overflows
      · cases overflows
    · cases reference

end Hack.Asm
