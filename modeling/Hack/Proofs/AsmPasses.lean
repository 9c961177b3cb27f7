import Hack.Proofs.AsmReference
import Hack.Proofs.Words
/-! Feeding files and running the label, variable and encoding passes computes the reference assembly. -/

set_option autoImplicit false

namespace Hack.Asm

/-! ### Scanning with the elements before -/

section Scans

variable {α β : Type}

@[simp] theorem mapAfter_nil (f : List α → α → β) (before : List α) :
    mapAfter f before [] = [] := rfl

@[simp] theorem mapAfter_cons (f : List α → α → β) (before : List α) (x : α) (rest : List α) :
    mapAfter f before (x :: rest) = f before x :: mapAfter f (before ++ [x]) rest := rfl

theorem mapAfter_append (f : List α → α → β) (before xs ys : List α) :
    mapAfter f before (xs ++ ys) = mapAfter f before xs ++ mapAfter f (before ++ xs) ys := by
  induction xs generalizing before with
  | nil => simp
  | cons x xs ih => simp [ih, List.append_assoc]

@[simp] theorem firstIssue_nil (check : List α → α → Option β) (before : List α) :
    firstIssue check before [] = none := rfl

@[simp] theorem firstIssue_cons (check : List α → α → Option β) (before : List α) (x : α)
    (rest : List α) :
    firstIssue check before (x :: rest) =
      (check before x).or (firstIssue check (before ++ [x]) rest) := rfl

theorem firstIssue_append (check : List α → α → Option β) (before xs ys : List α) :
    firstIssue check before (xs ++ ys) =
      (firstIssue check before xs).or (firstIssue check (before ++ xs) ys) := by
  induction xs generalizing before with
  | nil => simp
  | cons x xs ih => simp [ih, List.append_assoc, Option.or_assoc]

/-- Without an issue, no element is checked with an answer. -/
theorem check_eq_none_of_firstIssue (check : List α → α → Option β) (before xs : List α)
    (clean : firstIssue check before xs = none) (pre : List α) (x : α) (post : List α)
    (split : xs = pre ++ x :: post) : check (before ++ pre) x = none := by
  subst split
  rw [firstIssue_append, firstIssue_cons] at clean
  simp only [Option.or_eq_none_iff] at clean
  exact clean.2.1

/-- A scan finds no issue when no element is checked with an answer after the elements before it. -/
theorem firstIssue_eq_none (check : List α → α → Option β) :
    ∀ (before xs : List α), (∀ pre x post, xs = pre ++ x :: post → check (before ++ pre) x = none) →
      firstIssue check before xs = none
  | _, [], _ => rfl
  | before, x :: rest, clean => by
    rw [firstIssue_cons, ← List.append_nil before, clean [] x rest rfl, Option.none_or,
      List.append_nil]
    apply firstIssue_eq_none check (before ++ [x]) rest
    intro pre y post split
    rw [List.append_assoc, List.singleton_append]
    exact clean (x :: pre) y post (by rw [split, List.cons_append])

end Scans

/-! ### Symbol tables as association lists -/

namespace SymbolTable

theorem get?_ofList (entries : List (String × UInt16)) (name : String) :
    get? ⟨entries.toArray⟩ name = entries.lookup name := by
  simp only [get?, List.find?_toArray]
  induction entries with
  | nil => rfl
  | cons entry rest ih =>
    obtain ⟨key, addr⟩ := entry
    by_cases same : name = key
    · subst same
      simp
    · have differ : (key == name) = false := by simpa using Ne.symm same
      have differ' : (name == key) = false := by simpa using same
      simp [List.lookup_cons, differ, differ', ih]

theorem contains_ofList (entries : List (String × UInt16)) (name : String) :
    contains ⟨entries.toArray⟩ name = (entries.lookup name).isSome := by
  rw [← get?_ofList]
  simp only [get?, contains, Option.isSome_map, List.find?_toArray, List.isSome_find?]
  simp

theorem add_ofList (entries : List (String × UInt16)) (name : String) (addr : UInt16)
    (named : name ≠ "") :
    add ⟨entries.toArray⟩ name addr =
      match entries.lookup name with
      | some previous => .error (.redefinedLabel name previous)
      | none => .ok ⟨(entries ++ [(name, addr)]).toArray⟩ := by
  have nonempty : name.isEmpty = false := by simpa [String.isEmpty_iff] using named
  simp only [add, nonempty, get?_ofList, Bool.false_eq_true, ↓reduceIte]
  cases entries.lookup name <;> simp

end SymbolTable

/-! ### What reading a line guarantees -/

/-- What a kept line carries: named labels bound inside the ROM, literals that fit a load, and
named symbol operands. -/
def Line.Sound (line : Line) : Prop :=
  match line.stmt with
  | some (.label name pc) => name ≠ "" ∧ pc.toNat < romSize
  | some (.load (.literal v)) => v.toNat ≤ addressMax
  | some (.load (.symbol name)) => name ≠ ""
  | _ => True

theorem isSymbolChars_ne_nil {cs : List Char} (symbol : isSymbolChars cs = true) : cs ≠ [] := by
  rintro rfl
  simp [isSymbolChars] at symbol

theorem ofList_ne_empty {cs : List Char} (nonempty : cs ≠ []) : String.ofList cs ≠ "" := by
  intro empty
  apply nonempty
  simpa using congrArg String.toList empty

theorem Operand.parse_literal {text : String} {v : UInt16}
    (parsed : Operand.parse text = .ok (.literal v)) : v.toNat ≤ addressMax := by
  unfold Operand.parse at parsed
  split at parsed
  · dsimp only at parsed
    split at parsed
    · rename_i fits
      cases parsed
      have small : Text.digitsValue 10 text.toList < 65536 := by
        simp only [addressMax] at fits
        omega
      simpa [Nat.mod_eq_of_lt small] using fits
    · cases parsed
  · split at parsed <;> cases parsed

theorem Operand.parse_symbol {text name : String}
    (parsed : Operand.parse text = .ok (.symbol name)) : name ≠ "" := by
  unfold Operand.parse at parsed
  split at parsed
  · dsimp only at parsed
    split at parsed <;> cases parsed
  · split at parsed
    · rename_i symbol
      cases parsed
      intro empty
      simp [empty, isSymbol, isSymbolChars] at symbol
    · cases parsed

theorem parseCompute_ok {code : List Char} {st : Stmt} (parsed : parseCompute code = .ok st) :
    ∃ dest comp jump, st = .compute dest comp jump := by
  have parts : ∀ st, parseCompute.parseParts code = .ok st →
      ∃ dest comp jump, st = .compute dest comp jump := by
    intro st parsed
    simp only [parseCompute.parseParts] at parsed
    split at parsed
    · cases parsed
      exact ⟨_, _, _, rfl⟩
    · cases parsed
  unfold parseCompute at parsed
  split at parsed
  · split at parsed
    · cases parsed
    · exact parts st parsed
  · exact parts st parsed

/-- A line that reads as nothing has no code. -/
theorem Stmt.parse_eq_none {raw : String} {pc : UInt16} (parsed : Stmt.parse raw pc = .ok none) :
    lineCode raw = [] := by
  unfold Stmt.parse at parsed
  split at parsed
  · assumption
  · rename_i code operand _
    cases h : Operand.parse (String.ofList operand) <;> simp [h, Except.map] at parsed
  · split at parsed
    · split at parsed <;> cases parsed
    · cases parsed
  · cases h : parseCompute (lineCode raw) <;> simp [h, Except.map] at parsed

/-- A line that reads as a statement: the statement takes a word exactly when the code is an
instruction, a label is bound to the given index, and names and literals are as `Line.Sound`
asks. -/
theorem Stmt.parse_eq_some {raw : String} {pc : UInt16} {st : Stmt}
    (parsed : Stmt.parse raw pc = .ok (some st)) :
    st.isInst = isInstCode (lineCode raw) ∧
      match st with
      | .label name bound => name ≠ "" ∧ bound = pc
      | .load (.literal v) => v.toNat ≤ addressMax
      | .load (.symbol name) => name ≠ ""
      | .compute .. => True := by
  unfold Stmt.parse at parsed
  split at parsed
  · cases parsed
  · rename_i code operand shape
    cases h : Operand.parse (String.ofList operand) with
    | error e => simp [h, Except.map] at parsed
    | ok o =>
      simp only [h, Except.map, Except.ok.injEq, Option.some.injEq] at parsed
      subst parsed
      refine ⟨by simp [shape, Stmt.isInst, isInstCode], ?_⟩
      cases o with
      | literal v => exact Operand.parse_literal h
      | symbol name => exact Operand.parse_symbol h
  · rename_i code rest shape
    split at parsed
    · split at parsed
      · rename_i name reversed symbol
        simp only [Except.ok.injEq, Option.some.injEq] at parsed
        subst parsed
        exact ⟨by simp [shape, Stmt.isInst, isInstCode],
          ofList_ne_empty (isSymbolChars_ne_nil symbol), rfl⟩
      · cases parsed
    · cases parsed
  · rename_i code notEmpty notLoad notLabel
    cases h : parseCompute (lineCode raw) with
    | error e => simp [h, Except.map] at parsed
    | ok c =>
      simp only [h, Except.map, Except.ok.injEq, Option.some.injEq] at parsed
      subst parsed
      obtain ⟨dest, comp, jump, rfl⟩ := parseCompute_ok h
      refine ⟨?_, trivial⟩
      cases shape : lineCode raw with
      | nil => exact absurd shape notEmpty
      | cons c rest =>
        by_cases opening : c = '('
        · subst opening
          exact absurd shape (notLabel rest)
        · simp [Stmt.isInst, isInstCode, opening]

/-! ### Feeding -/

theorem wordCount_append (before more : List SourceLine) :
    wordCount (before ++ more) = wordCount before + wordCount more := by
  simp [wordCount, List.filter_append]

theorem wordCount_singleton (line : SourceLine) :
    wordCount [line] = if isInstCode (lineCode line.raw) then 1 else 0 := by
  unfold wordCount
  split <;> simp [*]

/-- One line fed after the lines `before`: it is refused with the reference's error, or kept as
the reference reads it. -/
theorem feedLine_eq (s : Session) (before : List SourceLine) (line : SourceLine)
    (counted : s.pc = wordCount before) :
    s.feedLine line.file line.index line.raw =
      match readError before line with
      | some e => .error e
      | none => .ok { s with lines := s.lines.push (line.toLine before),
                             pc := wordCount (before ++ [line]) } := by
  have read : line.read before = Stmt.parse line.raw s.pc.toUInt16 := by
    rw [SourceLine.read, counted]
  unfold Session.feedLine readError SourceLine.toLine
  rw [read, wordCount_append, wordCount_singleton, ← counted]
  cases parsed : Stmt.parse line.raw s.pc.toUInt16 with
  | error e => rfl
  | ok stmt =>
    cases stmt with
    | none => simp [Stmt.parse_eq_none parsed, isInstCode]
    | some st =>
      have kind := (Stmt.parse_eq_some parsed).1
      by_cases full : romSize ≤ s.pc
      · simp [full]
      · cases inst : st.isInst <;> simp [full, ← kind, inst]

theorem feed_eq (s : Session) (file source : String) :
    s.feed file source =
      Session.feedFrom file s ((fileLines file source).map fun line => (line.index, line.raw)) := by
  simp [Session.feed, fileLines, List.map_map, Function.comp_def]

theorem fileLines_file (file source : String) : ∀ line ∈ fileLines file source, line.file = file := by
  simp only [fileLines, List.mem_map]
  rintro line ⟨⟨raw, index⟩, -, rfl⟩
  rfl

theorem feedFrom_issue (file : String) (s : Session) (before lines : List SourceLine)
    (ownFile : ∀ line ∈ lines, line.file = file) (counted : s.pc = wordCount before) :
    (Session.feedFrom file s (lines.map fun line => (line.index, line.raw))).2 =
      firstIssue readError before lines := by
  induction lines generalizing s before with
  | nil => rfl
  | cons line rest ih =>
    have step := feedLine_eq s before line counted
    rw [ownFile line (by simp)] at step
    simp only [List.map_cons, Session.feedFrom, firstIssue_cons, step]
    cases issue : readError before line with
    | some e => rfl
    | none =>
      exact ih _ _ (fun l member => ownFile l (by simp [member])) rfl

theorem feedFrom_session (file : String) (s : Session) (before lines : List SourceLine)
    (ownFile : ∀ line ∈ lines, line.file = file) (counted : s.pc = wordCount before)
    (clean : firstIssue readError before lines = none) :
    (Session.feedFrom file s (lines.map fun line => (line.index, line.raw))).1 =
      { s with lines := s.lines ++ (mapAfter SourceLine.toLine before lines).toArray,
               pc := wordCount (before ++ lines) } := by
  induction lines generalizing s before with
  | nil =>
    cases s
    simp [Session.feedFrom, ← counted]
  | cons line rest ih =>
    have step := feedLine_eq s before line counted
    rw [ownFile line (by simp)] at step
    simp only [firstIssue_cons, Option.or_eq_none_iff] at clean
    simp only [List.map_cons, Session.feedFrom, step, clean.1]
    rw [ih _ _ (fun l member => ownFile l (by simp [member])) rfl clean.2]
    simp [List.append_assoc]

theorem sourceLines_cons (file source : String) (rest : List (String × String)) :
    sourceLines ((file, source) :: rest) = fileLines file source ++ sourceLines rest := by
  simp [sourceLines]

theorem feedFiles_issue (s : Session) (before : List SourceLine) (files : List (String × String))
    (counted : s.pc = wordCount before) :
    (s.feedFiles files).2 = firstIssue readError before (sourceLines files) := by
  induction files generalizing s before with
  | nil => rfl
  | cons first rest ih =>
    obtain ⟨file, source⟩ := first
    have fedIssue := feedFrom_issue file s before _ (fileLines_file file source) counted
    rw [sourceLines_cons, firstIssue_append]
    simp only [Session.feedFiles, feed_eq]
    cases fed : Session.feedFrom file s
        ((fileLines file source).map fun line => (line.index, line.raw)) with
    | mk next err =>
      rw [fed] at fedIssue
      simp only at fedIssue
      subst fedIssue
      cases issue : firstIssue readError before (fileLines file source) with
      | some e => rfl
      | none =>
        have fedSession := feedFrom_session file s before _ (fileLines_file file source) counted issue
        rw [fed] at fedSession
        simp only at fedSession
        subst fedSession
        exact ih _ _ rfl

theorem feedFiles_session (s : Session) (before : List SourceLine) (files : List (String × String))
    (counted : s.pc = wordCount before)
    (clean : firstIssue readError before (sourceLines files) = none) :
    (s.feedFiles files).1 =
      { s with lines := s.lines ++ (mapAfter SourceLine.toLine before (sourceLines files)).toArray,
               pc := wordCount (before ++ sourceLines files) } := by
  induction files generalizing s before with
  | nil =>
    cases s
    simp [Session.feedFiles, sourceLines, ← counted]
  | cons first rest ih =>
    obtain ⟨file, source⟩ := first
    rw [sourceLines_cons, firstIssue_append, Option.or_eq_none_iff] at clean
    have fedIssue := feedFrom_issue file s before _ (fileLines_file file source) counted
    have fedSession := feedFrom_session file s before _ (fileLines_file file source) counted clean.1
    rw [clean.1] at fedIssue
    simp only [Session.feedFiles, feed_eq]
    cases fed : Session.feedFrom file s
        ((fileLines file source).map fun line => (line.index, line.raw)) with
    | mk next err =>
      rw [fed] at fedIssue fedSession
      simp only at fedIssue fedSession
      subst fedIssue fedSession
      rw [ih _ _ rfl clean.2, sourceLines_cons, mapAfter_append]
      simp [List.append_assoc]

/-- A line read without error keeps what `Line.Sound` asks. -/
theorem toLine_sound (before : List SourceLine) (line : SourceLine)
    (readable : readError before line = none) : (line.toLine before).Sound := by
  unfold readError at readable
  unfold SourceLine.toLine Line.Sound
  unfold SourceLine.read at readable ⊢
  cases parsed : Stmt.parse line.raw (wordCount before).toUInt16 with
  | error e => simp [parsed] at readable
  | ok stmt =>
    cases stmt with
    | none => simp
    | some st =>
      simp only [parsed] at readable ⊢
      have room : wordCount before < romSize := by
        by_cases full : romSize ≤ wordCount before
        · simp [full] at readable
        · omega
      have facts := (Stmt.parse_eq_some parsed).2
      cases st with
      | label name bound =>
        obtain ⟨named, rfl⟩ := facts
        refine ⟨named, ?_⟩
        simp only [romSize] at room ⊢
        simp [Nat.mod_eq_of_lt (by omega : wordCount before < 65536), room]
      | load operand => cases operand <;> exact facts
      | compute => trivial

theorem program_sound (before lines : List SourceLine)
    (clean : firstIssue readError before lines = none) :
    ∀ line ∈ mapAfter SourceLine.toLine before lines, line.Sound := by
  induction lines generalizing before with
  | nil => simp
  | cons x rest ih =>
    simp only [firstIssue_cons, Option.or_eq_none_iff] at clean
    simp only [mapAfter_cons, List.mem_cons]
    rintro line (rfl | later)
    · exact toLine_sound before x clean.1
    · exact ih _ clean.2 line later

/-! ### Pass one: labels -/

theorem labels_append (xs ys : List Line) : labels (xs ++ ys) = labels xs ++ labels ys := by
  simp [labels, List.filterMap_append]

theorem bindings_append (xs ys : List Line) : bindings (xs ++ ys) = bindings xs ++ labels ys := by
  simp [bindings, labels_append]

theorem bindLabel_eq (before : List Line) (line : Line) (sound : line.Sound) :
    Session.bindLabel ⟨(bindings before).toArray⟩ line =
      match labelClash before line with
      | some e => .error e
      | none => .ok ⟨(bindings (before ++ [line])).toArray⟩ := by
  unfold Session.bindLabel labelClash Line.Sound at *
  rw [bindings_append]
  cases stmt : line.stmt with
  | none => simp [labels, stmt]
  | some st =>
    cases st with
    | label name pc =>
      simp only [stmt] at sound
      dsimp only
      rw [SymbolTable.add_ofList _ _ _ sound.1]
      cases (bindings before).lookup name <;> simp [labels, stmt]
    | load operand => simp [labels, stmt]
    | compute => simp [labels, stmt]

theorem walk_bindLabel_issue (before rest : List Line) (sound : ∀ line ∈ rest, line.Sound) :
    (Session.walk Session.bindLabel ⟨(bindings before).toArray⟩ rest).2 =
      firstIssue labelClash before rest := by
  induction rest generalizing before with
  | nil => rfl
  | cons line rest ih =>
    simp only [Session.walk, firstIssue_cons, bindLabel_eq before line (sound line (by simp))]
    cases labelClash before line with
    | some e => rfl
    | none => exact ih _ (fun l member => sound l (by simp [member]))

theorem walk_bindLabel_table (before rest : List Line) (sound : ∀ line ∈ rest, line.Sound)
    (clean : firstIssue labelClash before rest = none) :
    (Session.walk Session.bindLabel ⟨(bindings before).toArray⟩ rest).1 =
      ⟨(bindings (before ++ rest)).toArray⟩ := by
  induction rest generalizing before with
  | nil => simp [Session.walk]
  | cons line rest ih =>
    simp only [firstIssue_cons, Option.or_eq_none_iff] at clean
    simp only [Session.walk, bindLabel_eq before line (sound line (by simp)), clean.1]
    rw [ih _ (fun l member => sound l (by simp [member])) clean.2, List.append_assoc]
    rfl

/-- Without a clash, no label repeats a predefined name. -/
theorem predefined_lookup_of_label (before rest : List Line)
    (clean : firstIssue labelClash before rest = none) (name : String) (pc : UInt16)
    (bound : (name, pc) ∈ labels rest) : predefined.lookup name = none := by
  obtain ⟨line, member, found⟩ := List.mem_filterMap.mp bound
  obtain ⟨pre, post, rfl⟩ := List.append_of_mem member
  have quiet := check_eq_none_of_firstIssue labelClash before _ clean pre line post rfl
  unfold labelClash at quiet
  split at found
  · rename_i named _ stmt
    simp only [Option.some.injEq, Prod.mk.injEq] at found
    obtain ⟨rfl, -⟩ := found
    simp only [stmt, Option.map_eq_none_iff, bindings, List.lookup_append,
      Option.or_eq_none_iff] at quiet
    exact quiet.1
  · cases found

/-! ### Pass two: variables -/

/-- The RAM words of variables, from 16 up in order. -/
def slots (vars : List String) : List (String × UInt16) :=
  (vars.zipIdx variableBase).map fun (name, i) => (name, i.toUInt16)

/-- The symbol table while the variables of the lines `before` are allocated. -/
def variableTable (prog before : List Line) : SymbolTable :=
  ⟨(bindings prog ++ slots (variablesIn prog before)).toArray⟩

theorem slots_snoc (vars : List String) (name : String) :
    slots (vars ++ [name]) = slots vars ++ [(name, (variableBase + vars.length).toUInt16)] := by
  simp [slots, List.zipIdx_append]

theorem lookup_zipIdx (vars : List String) (name : String) (base : Nat) :
    ((vars.zipIdx base).map fun (n, i) => (n, i.toUInt16)).lookup name =
      if name ∈ vars then some (base + vars.idxOf name).toUInt16 else none := by
  induction vars generalizing base with
  | nil => simp
  | cons var rest ih =>
    by_cases same : name = var
    · subst same
      simp [List.zipIdx_cons]
    · have differ : (name == var) = false := by simpa using same
      have differ' : (var == name) = false := by simpa using Ne.symm same
      simp only [List.zipIdx_cons, List.map_cons, List.lookup_cons, differ, ih, List.mem_cons,
        same, false_or, List.idxOf_cons, differ', cond_false]
      split <;> simp [Nat.add_assoc, Nat.add_comm 1]

theorem lookup_slots (vars : List String) (name : String) :
    (slots vars).lookup name =
      if name ∈ vars then some (variableBase + vars.idxOf name).toUInt16 else none :=
  lookup_zipIdx vars name variableBase

theorem operands_append (xs ys : List Line) : operands (xs ++ ys) = operands xs ++ operands ys := by
  simp [operands, List.filterMap_append]

theorem operands_singleton (line : Line) :
    operands [line] =
      match line.stmt with
      | some (.load (.symbol name)) => [name]
      | _ => [] := by
  unfold operands
  split <;> simp [*]

theorem variablesIn_append (prog xs ys : List Line) :
    ∃ more, variablesIn prog (xs ++ ys) = variablesIn prog xs ++ more := by
  simp only [variablesIn, operands_append, List.filter_append]
  exact ⟨_, List.eraseDups_append⟩

theorem variablesIn_snoc (prog before : List Line) (line : Line) :
    variablesIn prog (before ++ [line]) =
      variablesIn prog before ++
        match line.stmt with
        | some (.load (.symbol name)) =>
          if unbound prog name ∧ name ∉ variablesIn prog before then [name] else []
        | _ => [] := by
  simp only [variablesIn, operands_append, operands_singleton, List.filter_append,
    List.eraseDups_append]
  congr 1
  split
  · rename_i name _
    by_cases free : unbound prog name
    · by_cases seen : name ∈ (operands before).filter (unbound prog)
      · have used : name ∈ operands before := (List.mem_filter.mp seen).1
        simp [free, seen, used, List.removeAll, List.mem_eraseDups]
      · have unused : name ∉ operands before := fun used => seen (List.mem_filter.mpr ⟨used, free⟩)
        simp [free, seen, unused, List.removeAll, List.mem_eraseDups, List.eraseDups_cons]
    · simp [free]
  · rfl

/-- An unbound symbol's address is its RAM word as a variable. -/
theorem address_of_unbound (prog : List Line) (name : String) (free : unbound prog name = true) :
    address prog name = variableBase + (allVariables prog).idxOf name := by
  simp only [unbound, bindings, List.lookup_append, Option.isNone_iff_eq_none,
    Option.or_eq_none_iff] at free
  simp [address, free.1, free.2]

/-- A variable already allocated before a line has a word below the next free one. -/
theorem address_lt_of_seen (prog before after : List Line) (line : Line)
    (whole : prog = before ++ line :: after) (name : String) (free : unbound prog name = true)
    (seen : name ∈ variablesIn prog before) :
    address prog name < variableBase + (variablesIn prog before).length := by
  obtain ⟨more, split⟩ := variablesIn_append prog before (line :: after)
  have layout : allVariables prog = variablesIn prog before ++ more := by
    unfold allVariables
    conv => lhs; arg 2; rw [whole]
    exact split
  rw [address_of_unbound prog name free, layout, List.idxOf_append, if_pos seen]
  have := List.idxOf_lt_length_of_mem seen
  omega

/-- A symbol used for the first time takes the next free word. -/
theorem address_of_fresh (prog before after : List Line) (line : Line)
    (whole : prog = before ++ line :: after) (name : String)
    (uses : line.stmt = some (.load (.symbol name))) (free : unbound prog name = true)
    (fresh : name ∉ variablesIn prog before) :
    address prog name = variableBase + (variablesIn prog before).length := by
  obtain ⟨more, split⟩ := variablesIn_append prog (before ++ [line]) after
  have extended := variablesIn_snoc prog before line
  simp only [uses, free, fresh, not_false_eq_true, and_self, ↓reduceIte] at extended
  have layout : allVariables prog = variablesIn prog before ++ name :: more := by
    unfold allVariables
    conv => lhs; arg 2; rw [whole, show before ++ line :: after = before ++ [line] ++ after by simp]
    rw [split, extended, List.append_assoc, List.singleton_append]
  rw [address_of_unbound prog name free, layout, List.idxOf_append, if_neg fresh]
  simp

theorem contains_variableTable (prog before : List Line) (name : String) :
    (variableTable prog before).contains name =
      (!unbound prog name || decide (name ∈ variablesIn prog before)) := by
  simp only [variableTable, SymbolTable.contains_ofList, List.lookup_append, lookup_slots,
    unbound, Option.isSome_or]
  cases (bindings prog).lookup name <;> by_cases seen : name ∈ variablesIn prog before <;>
    simp [seen]

/-- One line of the variable pass, from the table of the lines `before`. -/
theorem allocateLine_eq (prog before after : List Line) (line : Line)
    (whole : prog = before ++ line :: after) (sound : line.Sound)
    (room : variableBase + (variablesIn prog before).length ≤ variableLimit) :
    Session.allocateLine
        (variableTable prog before, variableBase + (variablesIn prog before).length) line =
      match overflow prog line with
      | some e => .error e
      | none => .ok (variableTable prog (before ++ [line]),
          variableBase + (variablesIn prog (before ++ [line])).length) := by
  unfold Session.allocateLine overflow variableTable
  rw [variablesIn_snoc]
  cases uses : line.stmt with
  | none => simp
  | some st =>
    cases st with
    | load operand =>
      cases operand with
      | symbol name =>
        have named : name ≠ "" := by simpa [Line.Sound, uses] using sound
        have contains := contains_variableTable prog before name
        simp only [variableTable] at contains
        dsimp only
        rw [contains]
        by_cases free : unbound prog name
        · by_cases seen : name ∈ variablesIn prog before
          · have below := address_lt_of_seen prog before after line whole name free seen
            have quiet : ¬ variableLimit ≤ address prog name := by omega
            simp [free, seen, quiet]
          · have next := address_of_fresh prog before after line whole name uses free seen
            rw [next]
            by_cases full : variableLimit ≤ variableBase + (variablesIn prog before).length
            · simp [free, seen, full]
            · have missing : (bindings prog ++ slots (variablesIn prog before)).lookup name = none := by
                simp only [unbound, Option.isNone_iff_eq_none] at free
                simp [List.lookup_append, free, lookup_slots, seen]
              simp only [free, seen, full, Bool.not_true, decide_false, Bool.or_self,
                Bool.false_eq_true, ↓reduceIte, not_false_eq_true, and_self, and_false,
                SymbolTable.add_ofList _ _ _ named, missing, List.length_append,
                List.length_singleton, slots_snoc, List.append_assoc]
              simp [Nat.add_assoc]
        · simp [free]
      | literal v => simp
    | label name pc => simp
    | compute dest comp jump => simp

/-- After a line without overflow there is still room for the next variable. -/
theorem room_snoc (prog before after : List Line) (line : Line)
    (whole : prog = before ++ line :: after)
    (room : variableBase + (variablesIn prog before).length ≤ variableLimit)
    (fits : overflow prog line = none) :
    variableBase + (variablesIn prog (before ++ [line])).length ≤ variableLimit := by
  rw [variablesIn_snoc]
  unfold overflow at fits
  split
  · rename_i name uses
    rw [uses] at fits
    by_cases free : unbound prog name
    · by_cases seen : name ∈ variablesIn prog before
      · simpa [free, seen] using room
      · have next := address_of_fresh prog before after line whole name uses free seen
        simp only [free, true_and, next] at fits
        have below : ¬ variableLimit ≤ variableBase + (variablesIn prog before).length := by
          intro full
          simp [full] at fits
        simp only [free, seen, not_false_eq_true, and_self, ↓reduceIte, List.length_append,
          List.length_singleton]
        omega
    · simpa [free] using room
  · simpa using room

theorem walk_allocate_issue (prog before rest : List Line) (whole : prog = before ++ rest)
    (sound : ∀ line ∈ rest, line.Sound)
    (room : variableBase + (variablesIn prog before).length ≤ variableLimit) :
    (Session.walk Session.allocateLine
        (variableTable prog before, variableBase + (variablesIn prog before).length) rest).2 =
      rest.findSome? (overflow prog) := by
  induction rest generalizing before with
  | nil => rfl
  | cons line rest ih =>
    have step := allocateLine_eq prog before rest line whole (sound line (by simp)) room
    simp only [Session.walk, step, List.findSome?_cons]
    cases fits : overflow prog line with
    | some e => rfl
    | none =>
      exact ih (before ++ [line]) (by simp [whole]) (fun l member => sound l (by simp [member]))
        (room_snoc prog before rest line whole room fits)

theorem walk_allocate_state (prog before rest : List Line) (whole : prog = before ++ rest)
    (sound : ∀ line ∈ rest, line.Sound)
    (room : variableBase + (variablesIn prog before).length ≤ variableLimit)
    (clean : rest.findSome? (overflow prog) = none) :
    (Session.walk Session.allocateLine
        (variableTable prog before, variableBase + (variablesIn prog before).length) rest).1 =
      (variableTable prog prog, variableBase + (allVariables prog).length) := by
  induction rest generalizing before with
  | nil => simp [Session.walk, whole, allVariables]
  | cons line rest ih =>
    rw [List.findSome?_cons] at clean
    cases fits : overflow prog line with
    | some e => simp [fits] at clean
    | none =>
      simp only [fits] at clean
      have step := allocateLine_eq prog before rest line whole (sound line (by simp)) room
      simp only [Session.walk, step, fits]
      exact ih (before ++ [line]) (by simp [whole]) (fun l member => sound l (by simp [member]))
        (room_snoc prog before rest line whole room fits) clean

/-! ### Pass three: words -/

theorem label_lt (prog : List Line) (sound : ∀ line ∈ prog, line.Sound) (name : String)
    (a : UInt16) (found : (labels prog).lookup name = some a) : a.toNat < romSize := by
  obtain ⟨pre, post, split, -⟩ := List.lookup_eq_some_iff.mp found
  have member : (name, a) ∈ labels prog := by
    rw [split]
    simp
  obtain ⟨line, inProg, bound⟩ := List.mem_filterMap.mp member
  have lineSound := sound line inProg
  unfold Line.Sound at lineSound
  split at bound
  · rename_i stmt
    simp only [Option.some.injEq, Prod.mk.injEq] at bound
    obtain ⟨rfl, rfl⟩ := bound
    simp only [stmt] at lineSound
    exact lineSound.2
  · cases bound

theorem mem_allVariables_iff {prog : List Line} {name : String} :
    name ∈ allVariables prog ↔ name ∈ operands prog ∧ unbound prog name = true := by
  simp [allVariables, variablesIn, List.mem_eraseDups]

theorem mem_allVariables (prog : List Line) (name : String) (used : name ∈ operands prog)
    (free : unbound prog name = true) : name ∈ allVariables prog :=
  mem_allVariables_iff.mpr ⟨used, free⟩

/-- After the variable pass the table answers every operand with its reference address. -/
theorem get?_variableTable (prog : List Line) (noClash : firstIssue labelClash [] prog = none)
    (name : String) (used : name ∈ operands prog) :
    (variableTable prog prog).get? name = some (address prog name).toUInt16 := by
  simp only [variableTable, SymbolTable.get?_ofList, List.lookup_append]
  cases bound : (bindings prog).lookup name with
  | some a =>
    simp only [Option.some_or, Option.some.injEq]
    simp only [bindings, List.lookup_append] at bound
    unfold address
    cases label : (labels prog).lookup name with
    | some b =>
      obtain ⟨pre, post, split, -⟩ := List.lookup_eq_some_iff.mp label
      have member : (name, b) ∈ labels prog := by
        rw [split]
        simp
      have notPredefined := predefined_lookup_of_label [] prog noClash name b member
      simp [notPredefined, label] at bound
      simp [bound]
    | none =>
      simp only [label, Option.or_none] at bound
      simp [bound]
  | none =>
    have free : unbound prog name = true := by simp [unbound, bound]
    have known := mem_allVariables prog name used free
    rw [address_of_unbound prog name free, Option.none_or, lookup_slots]
    unfold allVariables at known ⊢
    rw [if_pos known]

/-- Every operand's address lies inside the ROM range a load can hold. -/
theorem address_lt (prog : List Line) (sound : ∀ line ∈ prog, line.Sound)
    (line : Line) (name : String) (uses : line.stmt = some (.load (.symbol name)))
    (fits : overflow prog line = none) : address prog name < romSize := by
  by_cases free : unbound prog name
  · have quiet : ¬ variableLimit ≤ address prog name := by
      intro full
      simp [overflow, uses, free, full] at fits
    simp only [variableLimit, romSize] at quiet ⊢
    omega
  · unfold address
    cases label : (labels prog).lookup name with
    | some a => exact label_lt prog sound name a label
    | none =>
      cases pre : predefined.lookup name with
      | some a => exact predefined_lt name a pre
      | none => simp [unbound, bindings, List.lookup_append, label, pre] at free

theorem mem_operands (prog : List Line) (line : Line) (member : line ∈ prog) (name : String)
    (uses : line.stmt = some (.load (.symbol name))) : name ∈ operands prog :=
  List.mem_filterMap.mpr ⟨line, member, by simp [uses]⟩

theorem mem_operands_iff {prog : List Line} {name : String} :
    name ∈ operands prog ↔ ∃ line ∈ prog, line.stmt = some (.load (.symbol name)) := by
  constructor
  · intro used
    obtain ⟨line, member, found⟩ := List.mem_filterMap.mp used
    refine ⟨line, member, ?_⟩
    split at found
    · rename_i stmt
      cases found
      exact stmt
    · cases found
  · rintro ⟨line, member, uses⟩
    exact mem_operands prog line member name uses

/-- One line of the encoding pass adds the reference word of its statement, if it has one. -/
theorem encodeLine_eq (prog : List Line) (sound : ∀ line ∈ prog, line.Sound)
    (noClash : firstIssue labelClash [] prog = none)
    (noOverflow : prog.findSome? (overflow prog) = none)
    (words : Array UInt16) (line : Line) (member : line ∈ prog) :
    Session.encodeLine (variableTable prog prog) words line =
      .ok (match line.stmt.bind (word prog) with
        | some w => words.push w
        | none => words) := by
  have lineSound := sound line member
  have fits : overflow prog line = none := List.findSome?_eq_none_iff.mp noOverflow line member
  unfold Session.encodeLine
  cases uses : line.stmt with
  | none => rfl
  | some st =>
    cases st with
    | load operand =>
      cases operand with
      | literal v =>
        have small : v.toNat ≤ addressMax := by simpa [Line.Sound, uses] using lineSound
        simp only [Session.resolveStmt, Option.bind_some, word]
        rw [Inst.toWord_load v (by simp only [addressMax] at small; omega)]
      | symbol name =>
        simp only [Session.resolveStmt, Option.bind_some, word,
          get?_variableTable prog noClash name (mem_operands prog line member name uses)]
        have inside := address_lt prog sound line name uses fits
        have loadable : (address prog name).toUInt16.toNat < 32768 := by
          simp only [romSize] at inside
          simp [Nat.mod_eq_of_lt (by omega : address prog name < 65536), inside]
        rw [Inst.toWord_load _ loadable]
    | compute dest comp jump =>
      simp [Session.resolveStmt, word, Inst.toWord_compute]
    | label name pc => rfl

theorem walk_encode (prog : List Line) (sound : ∀ line ∈ prog, line.Sound)
    (noClash : firstIssue labelClash [] prog = none)
    (noOverflow : prog.findSome? (overflow prog) = none)
    (words : Array UInt16) (rest : List Line) (inside : ∀ line ∈ rest, line ∈ prog) :
    Session.walk (Session.encodeLine (variableTable prog prog)) words rest =
      (words ++ (rest.filterMap fun line => line.stmt.bind (word prog)).toArray, none) := by
  induction rest generalizing words with
  | nil => simp [Session.walk]
  | cons line rest ih =>
    simp only [Session.walk,
      encodeLine_eq prog sound noClash noOverflow words line (inside line (by simp))]
    rw [ih _ (fun l member => inside l (by simp [member]))]
    cases found : line.stmt.bind (word prog) <;> simp [found]

/-! ### The whole assembler -/

/-- The three passes over the lines the reference reads: the first clashing label, else the first
overflowing variable, else the reference words. -/
theorem assemble_eq (s : Session) (prog : List Line) (lines : s.lines.toList = prog)
    (start : s.symbols = SymbolTable.initial) (fresh : s.nextVar = variableBase)
    (sound : ∀ line ∈ prog, line.Sound) :
    s.assemble.2.map Array.toList =
      match firstIssue labelClash [] prog with
      | some e => .error e
      | none =>
        match prog.findSome? (overflow prog) with
        | some e => .error e
        | none => .ok (prog.filterMap fun line => line.stmt.bind (word prog)) := by
  have initial : s.symbols = ⟨(bindings []).toArray⟩ := by
    rw [start]
    simp [bindings, labels, SymbolTable.initial]
  have labelIssue := walk_bindLabel_issue [] prog sound
  unfold Session.assemble Session.resolveLabels
  rw [lines, initial]
  cases labelled : Session.walk Session.bindLabel ⟨(bindings []).toArray⟩ prog with
  | mk table clash =>
    rw [labelled] at labelIssue
    simp only at labelIssue
    subst labelIssue
    cases noClash : firstIssue labelClash [] prog with
    | some e => rfl
    | none =>
      have labelTable := walk_bindLabel_table [] prog sound noClash
      rw [labelled] at labelTable
      simp only [List.nil_append] at labelTable
      subst labelTable
      have start : (⟨(bindings prog).toArray⟩ : SymbolTable) = variableTable prog [] := by
        simp [variableTable, variablesIn, operands, slots]
      have room : variableBase + (variablesIn prog []).length ≤ variableLimit := by
        simp [variablesIn, operands, variableBase, variableLimit]
      have zero : s.nextVar = variableBase + (variablesIn prog []).length := by
        simp [fresh, variablesIn, operands]
      have varIssue := walk_allocate_issue prog [] prog rfl sound room
      simp only [Session.allocateVariables, lines, start, zero]
      cases allocated : Session.walk Session.allocateLine
          (variableTable prog [], variableBase + (variablesIn prog []).length) prog with
      | mk state overflowed =>
        rw [allocated] at varIssue
        simp only at varIssue
        subst varIssue
        cases noOverflow : prog.findSome? (overflow prog) with
        | some e => rfl
        | none =>
          have varState := walk_allocate_state prog [] prog rfl sound room noOverflow
          rw [allocated] at varState
          simp only at varState
          subst varState
          simp only [Session.encode, lines,
            walk_encode prog sound noClash noOverflow #[] prog (fun _ member => member),
            Array.empty_append]
          rfl

/-- A line that cannot be read ends feeding and the reference assembly with the same error. -/
theorem reference_of_feedFiles_issue {files : List (String × String)} {s : Session}
    {e : LineError} (fed : ({} : Session).feedFiles files = (s, some e)) :
    assembleReference files = .error e := by
  have readIssue := feedFiles_issue {} [] files rfl
  rw [fed] at readIssue
  simp only [assembleReference, ← readIssue]

/-- Once every line is read, the label, variable and encoding passes compute the reference
assembly. -/
theorem reference_of_feedFiles_clean {files : List (String × String)} {s : Session}
    (fed : ({} : Session).feedFiles files = (s, none)) :
    s.assemble.2.map Array.toList = assembleReference files := by
  have counted : ({} : Session).pc = wordCount [] := rfl
  have readIssue := feedFiles_issue {} [] files counted
  rw [fed] at readIssue
  have clean : firstIssue readError [] (sourceLines files) = none := readIssue.symm
  have session := feedFiles_session {} [] files counted clean
  rw [fed] at session
  subst session
  simp only [assembleReference, clean]
  exact assemble_eq _ (program (sourceLines files)) (by simp [program]) rfl rfl
    (program_sound [] _ clean)

/-- Feeding source files in order to one assembler and running its three passes computes the
reference assembly: the first line that cannot be read, else the first label that repeats a name,
else the first use of a variable past the last free RAM word, else one word per instruction, each
label resolved to the index of the word after it wherever it stands. -/
theorem assembleFiles_eq_reference (files : List (String × String)) :
    assembleFiles files = assembleReference files := by
  unfold assembleFiles
  rcases fed : ({} : Session).feedFiles files with ⟨s, _ | e⟩
  · exact reference_of_feedFiles_clean fed
  · exact (reference_of_feedFiles_issue fed).symm

theorem feedFiles_single (s : Session) (file source : String) :
    s.feedFiles [(file, source)] = s.feed file source := by
  simp only [Session.feedFiles]
  rcases s.feed file source with ⟨next, _ | e⟩ <;> rfl

/-- Assembling one file computes the reference assembly of that file. -/
theorem assemble_reference (file source : String) :
    (assemble file source).map Array.toList = assembleReference [(file, source)] := by
  unfold assemble
  rcases fed : ({} : Session).feed file source with ⟨s, _ | e⟩
  · exact reference_of_feedFiles_clean (by rw [feedFiles_single, fed])
  · exact (reference_of_feedFiles_issue (by rw [feedFiles_single, fed])).symm

end Hack.Asm
