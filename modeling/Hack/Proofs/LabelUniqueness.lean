import Hack.Proofs.EmittedText
import Mathlib.Data.List.Nodup
import Mathlib.Data.List.Pairwise
/-! Each label of a translated program is defined once, as long as no name chosen in the program takes
the shape of a generated one. -/

set_option autoImplicit false

namespace Hack

/-- Two texts cut at their first `$` agree before it and after it. -/
theorem append_dollar_inj {a b c d : String} (plainA : '$' ∉ a.toList) (plainC : '$' ∉ c.toList)
    (same : a ++ "$" ++ b = c ++ "$" ++ d) : a = c ∧ b = d := by
  have chars := congrArg String.toList same
  simp only [String.toList_append, List.append_assoc] at chars
  change a.toList ++ '$' :: b.toList = c.toList ++ '$' :: d.toList at chars
  rcases List.append_eq_append_iff.mp chars with ⟨w, split, rest⟩ | ⟨w, split, rest⟩
  · cases w with
    | nil =>
      simp only [List.append_nil, List.nil_append, List.cons.injEq, true_and] at split rest
      exact ⟨String.toList_inj.mp split.symm, String.toList_inj.mp rest⟩
    | cons e w =>
      simp only [List.cons_append, List.cons.injEq] at rest
      exact absurd (split ▸ List.mem_append_right _ (rest.1 ▸ List.mem_cons_self)) plainC
  · cases w with
    | nil =>
      simp only [List.append_nil, List.nil_append, List.cons.injEq, true_and] at split rest
      exact ⟨String.toList_inj.mp split, String.toList_inj.mp rest.symm⟩
    | cons e w =>
      simp only [List.cons_append, List.cons.injEq] at rest
      exact absurd (split ▸ List.mem_append_right _ (rest.1 ▸ List.mem_cons_self)) plainA

/-- A number's text is made of digits. -/
theorem digits_toString {n : Nat} {c : Char} (member : c ∈ (toString n).toList) :
    c.isDigit = true := by
  rw [Nat.toString_eq_repr, Nat.toList_repr] at member
  exact Nat.isDigit_of_mem_toDigits (by decide) (by decide) member

theorem repr_injective {n m : Nat} (same : n.repr = m.repr) : n = m := by
  have digits : Nat.toDigits 10 n = Nat.toDigits 10 m := by
    rw [← Nat.toList_repr, ← Nat.toList_repr, same]
  rw [← Nat.ofDigitChars_ten_toDigits (n := n), digits, Nat.ofDigitChars_ten_toDigits]

/-- A name with a character that no predefined name has is not predefined. -/
theorem predefined_lookup_of_mem {name : String} {c : Char}
    (absent : ∀ p ∈ predefined, c ∉ p.1.toList) (member : c ∈ name.toList) :
    predefined.lookup name = none := by
  cases found : predefined.lookup name with
  | none => rfl
  | some a =>
    obtain ⟨pre, post, split, -⟩ := List.lookup_eq_some_iff.mp found
    have inTable : (name, a) ∈ predefined := by
      rw [split]
      simp
    exact absurd member (absent _ inTable)

/-- A name with a `$` is not predefined. -/
theorem predefined_lookup_of_dollar {name : String} (dollar : '$' ∈ name.toList) :
    predefined.lookup name = none :=
  predefined_lookup_of_mem (by decide) dollar

end Hack

namespace Hack.Vm

/-- Where a label of the generated code comes from. -/
inductive LabelSource where
  /-- The entry of a function. -/
  | entry (function : String)
  /-- A `label` command: the function it stands in and its global name. -/
  | branch (function name : String)
  /-- The return point of a call: its file, its function and the number of calls before it in
  the file. -/
  | returnTo (file function : String) (call : Nat)
  | compareTrue (serial : Nat)
  | compareEnd (serial : Nat)
  | bootstrap
  deriving DecidableEq

namespace LabelSource

/-- The label a source defines. -/
def name : LabelSource → String
  | entry function => function
  | branch _ name => name
  | returnTo _ function call => function ++ "$ret." ++ toString call
  | compareTrue serial => "__CMP" ++ toString serial ++ "$TRUE"
  | compareEnd serial => "__CMP" ++ toString serial ++ "$END"
  | bootstrap => Code.bootstrapReturn

/-- The part of a source's label before its first `$`; an entry's label is all head. -/
def head : LabelSource → String
  | entry function | branch function _ | returnTo _ function _ => function
  | compareTrue serial | compareEnd serial => "__CMP" ++ toString serial
  | bootstrap => "__bootstrap"

end LabelSource

/-- The labels a command read in scope `s` defines, a comparison numbered `serial`. -/
def Command.sources (s : Scope) (serial : Nat) : Command → List LabelSource
  | .define name _ => [.entry name]
  | .branch .label name => [.branch s.function name]
  | .call .. => [.returnTo s.file s.function s.calls]
  | .arithmetic .eq | .arithmetic .gt | .arithmetic .lt => [.compareTrue serial, .compareEnd serial]
  | .arithmetic .add | .arithmetic .sub | .arithmetic .neg | .arithmetic .and | .arithmetic .or
  | .arithmetic .not | .memory .. | .branch .goto _ | .branch .ifGoto _ | .ret => []

@[simp] theorem entry_mem_sources {s : Scope} {serial : Nat} {cmd : Command} {f : String} :
    .entry f ∈ cmd.sources s serial ↔ cmd.defines? = some f := by
  cases cmd with
  | arithmetic op => cases op <;> simp [Command.sources, Command.defines?]
  | branch kind name => cases kind <;> simp [Command.sources, Command.defines?]
  | _ => simp [Command.sources, Command.defines?, eq_comm]

@[simp] theorem branch_mem_sources {s : Scope} {serial : Nat} {cmd : Command} {f name : String} :
    .branch f name ∈ cmd.sources s serial ↔ f = s.function ∧ cmd.labelName? = some name := by
  cases cmd with
  | arithmetic op => cases op <;> simp [Command.sources, Command.labelName?]
  | branch kind label => cases kind <;> simp [Command.sources, Command.labelName?, eq_comm]
  | _ => simp [Command.sources, Command.labelName?]

@[simp] theorem returnTo_mem_sources {s : Scope} {serial : Nat} {cmd : Command} {file f : String}
    {k : Nat} : .returnTo file f k ∈ cmd.sources s serial ↔
      (∃ name args tag, cmd = .call name args tag) ∧ file = s.file ∧ f = s.function ∧
        k = s.calls := by
  cases cmd with
  | arithmetic op => cases op <;> simp [Command.sources]
  | branch kind label => cases kind <;> simp [Command.sources]
  | _ => simp [Command.sources]

@[simp] theorem compareTrue_mem_sources {s : Scope} {serial : Nat} {cmd : Command} {n : Nat} :
    .compareTrue n ∈ cmd.sources s serial ↔ cmd.isComparison = true ∧ n = serial := by
  cases cmd with
  | arithmetic op => cases op <;> simp [Command.sources, Command.isComparison]
  | branch kind label => cases kind <;> simp [Command.sources, Command.isComparison]
  | _ => simp [Command.sources, Command.isComparison]

@[simp] theorem compareEnd_mem_sources {s : Scope} {serial : Nat} {cmd : Command} {n : Nat} :
    .compareEnd n ∈ cmd.sources s serial ↔ cmd.isComparison = true ∧ n = serial := by
  cases cmd with
  | arithmetic op => cases op <;> simp [Command.sources, Command.isComparison]
  | branch kind label => cases kind <;> simp [Command.sources, Command.isComparison]
  | _ => simp [Command.sources, Command.isComparison]

@[simp] theorem bootstrap_not_mem_sources {s : Scope} {serial : Nat} {cmd : Command} :
    .bootstrap ∉ cmd.sources s serial := by
  cases cmd with
  | arithmetic op => cases op <;> simp [Command.sources]
  | branch kind label => cases kind <;> simp [Command.sources]
  | _ => simp [Command.sources]

theorem nodup_sources (s : Scope) (serial : Nat) (cmd : Command) :
    (cmd.sources s serial).Nodup := by
  cases cmd with
  | arithmetic op => cases op <;> simp [Command.sources]
  | branch kind label => cases kind <;> simp [Command.sources]
  | _ => simp [Command.sources]

@[simp] theorem offset_labels (dest : Dest) (index : UInt16) :
    (Code.offset dest index).filterMap Piece.label? = [] := by
  unfold Code.offset
  split
  · rfl
  · split <;> rfl

/-- The labels in a command's code are the names of its sources. -/
theorem labels_lower {s : Scope} {cmd : Command} (named : cmd.Named s) (serial : Nat) :
    (cmd.lower serial).filterMap Piece.label? = (cmd.sources s serial).map LabelSource.name := by
  cases cmd with
  | arithmetic op =>
    cases op <;> simp [List.filterMap_cons, Command.lower, Command.body, Code.arithmetic,
      Code.binary, Code.unary, Code.compare, Piece.label?, Code.addr, Code.assign, Code.branchOn,
      Command.sources, LabelSource.name]
  | memory access slot =>
    cases access <;> cases slot <;> simp [List.filterMap_cons, Command.lower, Command.body,
      Code.push, Code.pop, Code.pushD, Code.popD, Piece.label?, Code.addr, Code.assign,
      Code.literal, Command.sources]
  | branch kind name =>
    cases kind <;> simp [List.filterMap_cons, Command.lower, Command.body, Code.popD, Piece.label?,
      Code.addr, Code.assign, Code.branchOn, Command.sources, LabelSource.name]
  | define name locals =>
    simp [List.filterMap_cons, Command.lower, Command.body, Code.define, Piece.label?, Code.addr,
      Code.assign, Command.sources, LabelSource.name]
  | call name args tag =>
    obtain ⟨-, rfl⟩ := named
    simp [List.filterMap_cons, Command.lower, Command.body, Code.call, Code.pushD, Code.saved,
      Piece.label?, Code.addr, Code.assign, Code.branchOn, Code.literal, Command.sources,
      LabelSource.name]
  | ret =>
    simp [List.filterMap_cons, Command.lower, Command.body, Code.ret, Code.popD, Code.saved,
      Piece.label?, Code.addr, Code.assign, Code.branchOn, Code.literal, Command.sources]

/-- The sources of commands read in their scopes, comparisons numbered from `serial`. -/
def sourcesFrom : Nat → List (Scope × Command) → List LabelSource
  | _, [] => []
  | serial, p :: rest =>
    p.2.sources p.1 serial ++ sourcesFrom (serial + if p.2.isComparison then 1 else 0) rest

theorem mem_sourcesFrom {x : LabelSource} : ∀ {serial : Nat} {view : List (Scope × Command)},
    x ∈ sourcesFrom serial view →
      ∃ p ∈ view, ∃ n, serial ≤ n ∧ x ∈ p.2.sources p.1 n
  | _, [], member => by simp [sourcesFrom] at member
  | serial, p :: rest, member => by
    rw [sourcesFrom, List.mem_append] at member
    rcases member with here | later
    · exact ⟨p, List.mem_cons_self, serial, Nat.le_refl _, here⟩
    · obtain ⟨q, inRest, n, le, there⟩ := mem_sourcesFrom later
      exact ⟨q, List.mem_cons_of_mem _ inRest, n, by omega, there⟩

/-- What keeps the sources of commands apart: definitions name distinct functions, `label`
commands distinct labels of their function, and of two calls in one file the later is read with
the larger count. -/
structure DistinctSources (view : List (Scope × Command)) : Prop where
  entries : (view.filterMap fun p => p.2.defines?).Nodup
  branches : (view.filterMap fun p => p.2.labelName?.map (p.1.function, ·)).Nodup
  calls : view.Pairwise fun p q => (∃ name args tag, p.2 = .call name args tag) →
    p.1.file = q.1.file → p.1.calls < q.1.calls

theorem DistinctSources.tail {p : Scope × Command} {rest : List (Scope × Command)}
    (apart : DistinctSources (p :: rest)) : DistinctSources rest where
  entries := by
    have entries := apart.entries
    rw [List.filterMap_cons] at entries
    split at entries
    · exact entries
    · exact (List.nodup_cons.mp entries).2
  branches := by
    have branches := apart.branches
    rw [List.filterMap_cons] at branches
    split at branches
    · exact branches
    · exact (List.nodup_cons.mp branches).2
  calls := (List.pairwise_cons.mp apart.calls).2

/-- The sources of commands that keep them apart are all distinct. -/
theorem nodup_sourcesFrom : ∀ (serial : Nat) (view : List (Scope × Command)),
    DistinctSources view → (sourcesFrom serial view).Nodup
  | _, [], _ => List.nodup_nil
  | serial, p :: rest, apart => by
    rw [sourcesFrom, List.nodup_append]
    refine ⟨nodup_sources p.1 serial p.2, nodup_sourcesFrom _ rest apart.tail, ?_⟩
    intro x here y later same
    subst same
    obtain ⟨q, inRest, n, le, there⟩ := mem_sourcesFrom later
    cases x with
    | entry f =>
      rw [entry_mem_sources] at here there
      have entries := apart.entries
      rw [List.filterMap_cons, here, List.nodup_cons] at entries
      exact entries.1 (List.mem_filterMap.mpr ⟨q, inRest, there⟩)
    | branch f name =>
      rw [branch_mem_sources] at here there
      have branches := apart.branches
      rw [List.filterMap_cons, here.2, Option.map_some, List.nodup_cons] at branches
      refine branches.1 (List.mem_filterMap.mpr ⟨q, inRest, ?_⟩)
      rw [there.2, Option.map_some, ← here.1, ← there.1]
    | returnTo file f k =>
      rw [returnTo_mem_sources] at here there
      have ordered := (List.pairwise_cons.mp apart.calls).1 q inRest here.1
        (here.2.1.symm.trans there.2.1)
      omega
    | compareTrue m =>
      rw [compareTrue_mem_sources] at here there
      simp only [here.1, if_true] at le
      omega
    | compareEnd m =>
      rw [compareEnd_mem_sources] at here there
      simp only [here.1, if_true] at le
      omega
    | bootstrap => exact bootstrap_not_mem_sources here

/-- A command with the scope it is read in, as the emitter needs it: its file and function are
symbols and it carries the names of its scope. -/
def Readable (p : Scope × Command) : Prop :=
  isSymbol p.1.file = true ∧ isSymbol p.1.function = true ∧ p.2.Named p.1

/-- Writing commands read in their scopes adds the names of their sources to the labels the
assembler reads back. -/
theorem Emitter.Reads.putAll {e : Emitter} {labels : List String} (reads : e.Reads labels)
    {view : List (Scope × Command)} (readable : ∀ p ∈ view, Readable p) :
    ((view.map Prod.snd).foldl Emitter.put e).Reads
      (labels ++ (sourcesFrom e.compareCount view).map LabelSource.name) := by
  induction view generalizing e labels with
  | nil => simpa [sourcesFrom] using reads
  | cons p rest ih =>
    obtain ⟨fileSymbol, functionSymbol, named⟩ := readable p List.mem_cons_self
    have put := reads.put (lower_clean fileSymbol functionSymbol named e.compareCount)
    rw [labels_lower named] at put
    have written := ih put (fun q member => readable q (List.mem_cons_of_mem _ member))
    rw [compareCount_put] at written
    simpa only [List.map_cons, List.foldl_cons, sourcesFrom, List.map_append,
      List.append_assoc] using written

theorem bootstrap_clean : CleanCode Code.bootstrap := by
  have comments : Text.OneLine "bootstrap" ∧ Text.OneLine "call Sys.init 0" :=
    ⟨Text.Inline.oneLine (by decide), Text.Inline.oneLine (by decide)⟩
  simp +decide [Code.bootstrap, Code.call, Code.pushD, Code.saved, Code.bootstrapReturn, comments]

/-- The emitter a translation starts from reads back as the bootstrap's return point, if it
holds the bootstrap, and has numbered no comparison. -/
theorem Emitter.start_reads (options : Options) :
    (Emitter.start options).Reads (if options.bootstrap then [Code.bootstrapReturn] else []) ∧
      (Emitter.start options).compareCount = 0 := by
  have empty : ({ annotate := options.annotate } : Emitter).Reads [] :=
    ⟨fun _ member => (nomatch member), rfl⟩
  unfold Emitter.start
  split
  · refine ⟨?_, compareCount_emitAll _ _⟩
    have written := empty.emitAll bootstrap_clean
    rwa [show Code.bootstrap.filterMap Piece.label? = [Code.bootstrapReturn] from rfl] at written
  · exact ⟨empty, rfl⟩

/-- Every command of a program with the scope it is read in, unit after unit. -/
def programView (units : List SourceFile) : List (Scope × Command) :=
  units.flatMap SourceFile.scoped

/-- The functions a unit defines, in order. -/
def SourceFile.functions (u : SourceFile) : List String :=
  u.commands.filterMap Command.defines?

/-- The functions a program defines, in order. -/
def functions (units : List SourceFile) : List String :=
  units.flatMap SourceFile.functions

/-- The `label` commands of a program, each with the function it stands in. -/
def branchLabels (units : List SourceFile) : List (String × String) :=
  (programView units).filterMap fun p => p.2.labelName?.map (p.1.function, ·)

/-- The sources of the labels of a translated program, in the order of its text. -/
def programSources (units : List SourceFile) (options : Options) : List LabelSource :=
  (if options.bootstrap then [.bootstrap] else []) ++ sourcesFrom 0 (programView units)

/-- The naming discipline of a VM program: unit names are distinct symbols, every function is
defined once and every label once in its function. -/
structure WellNamed (units : List SourceFile) : Prop where
  distinctUnits : (units.map SourceFile.name).Nodup
  unitSymbols : ∀ u ∈ units, isSymbol u.name = true
  definedOnce : (functions units).Nodup
  labelledOnce : (branchLabels units).Nodup

theorem map_snd_programView (units : List SourceFile) :
    (programView units).map Prod.snd = units.flatMap SourceFile.commands := by
  simp only [programView, List.map_flatMap, SourceFile.scoped, map_snd_annotate]

theorem defines_scoped (u : SourceFile) :
    u.scoped.filterMap (fun p => p.2.defines?) = u.functions := by
  rw [SourceFile.functions, ← map_snd_annotate (Scope.init u.name) u.commands, List.filterMap_map]
  rfl

/-- A command of a unit is read in the unit's file, in its default function or in one it
defines. -/
theorem scope_of_mem_scoped {u : SourceFile} {p : Scope × Command} (member : p ∈ u.scoped) :
    p.1.file = u.name ∧
      (p.1.function = u.name ++ ".__DEFAULT" ∨ p.1.function ∈ u.functions) :=
  ⟨file_of_mem_annotate _ _ p member, function_of_mem_annotate _ _ p member⟩

theorem isSymbol_of_mem_functions {u : SourceFile} (reads : u.read = .ok u.commands) {f : String}
    (defined : f ∈ u.functions) : isSymbol f = true := by
  rw [← defines_scoped, List.mem_filterMap] at defined
  obtain ⟨p, member, defines⟩ := defined
  have named := scoped_named reads p member
  cases command : p.2 with
  | define name locals =>
    rw [command] at defines named
    cases defines
    exact named
  | _ => rw [command] at defines; cases defines

theorem readable_of_mem_programView {units : List SourceFile}
    (symbols : ∀ u ∈ units, isSymbol u.name = true)
    (reads : ∀ u ∈ units, u.read = .ok u.commands) {p : Scope × Command}
    (member : p ∈ programView units) : Readable p := by
  obtain ⟨u, unit, inUnit⟩ := List.mem_flatMap.mp member
  obtain ⟨file, function⟩ := scope_of_mem_scoped inUnit
  refine ⟨file ▸ symbols u unit, ?_, scoped_named (reads u unit) p inUnit⟩
  rcases function with default | defined
  · rw [default]
    exact isSymbol_append (symbols u unit) (by decide)
  · exact isSymbol_of_mem_functions (reads u unit) defined

/-- The assembler reads from a translated program's text the names of its label sources, in
order. -/
theorem definedLabels_translate {units : List SourceFile} {options : Options} {text : String}
    (symbols : ∀ u ∈ units, isSymbol u.name = true)
    (translated : translate units options = .ok text) :
    Asm.definedLabels text = (programSources units options).map LabelSource.name := by
  obtain ⟨reads, rfl⟩ := translate_eq_ok translated
  obtain ⟨start, serial⟩ := Emitter.start_reads options
  have written := start.putAll (fun p member => readable_of_mem_programView symbols reads member)
  rw [map_snd_programView, serial] at written
  rw [written.definedLabels, programSources, List.map_append]
  split <;> rfl

theorem distinctSources_programView {units : List SourceFile} (named : WellNamed units) :
    DistinctSources (programView units) where
  entries := by
    rw [programView, List.filterMap_flatMap]
    simp only [defines_scoped]
    exact named.definedOnce
  branches := named.labelledOnce
  calls := by
    rw [programView, List.pairwise_flatMap]
    refine ⟨fun u _ => (annotate_calls_lt _ _).imp fun ordered call _ => ordered call, ?_⟩
    refine (List.pairwise_map.mp named.distinctUnits).imp fun differ p first q second _ same => ?_
    rw [(scope_of_mem_scoped first).1, (scope_of_mem_scoped second).1] at same
    exact absurd same differ

theorem nodup_programSources {units : List SourceFile} (named : WellNamed units)
    (options : Options) : (programSources units options).Nodup := by
  rw [programSources, List.nodup_append]
  refine ⟨by split <;> simp, nodup_sourcesFrom 0 _ (distinctSources_programView named), ?_⟩
  intro x boot y later same
  subst same
  split at boot
  · rw [List.mem_singleton.mp boot] at later
    obtain ⟨p, -, n, -, there⟩ := mem_sourcesFrom later
    exact bootstrap_not_mem_sources there
  · cases boot

/-- A function commands can be read in without their labels taking a generated shape: it has no
`$` and is not named like a comparison or the bootstrap. -/
structure PlainFunction (function : String) : Prop where
  plain : '$' ∉ function.toList
  notCompare : ∀ n : Nat, function ≠ "__CMP" ++ toString n
  notBootstrap : function ≠ "__bootstrap"

/-- What makes sources of commands that differ give labels that differ: plain functions, plain
function names, labels of a function that are no return points of it, and functions that belong
to one file. -/
structure SeparateNames (view : List (Scope × Command)) : Prop where
  functions : ∀ p ∈ view, PlainFunction p.1.function
  entries : ∀ p ∈ view, ∀ f, p.2.defines? = some f → '$' ∉ f.toList
  labels : ∀ p ∈ view, ∀ name, p.2.labelName? = some name →
    (∃ label, name = p.1.function ++ "$" ++ label) ∧
      ∀ k : Nat, name ≠ p.1.function ++ "$ret." ++ toString k
  files : ∀ p ∈ view, ∀ q ∈ view, p.1.function = q.1.function → p.1.file = q.1.file

namespace LabelSource

/-- What a source of some commands keeps to when their names are separate. -/
def Fits (view : List (Scope × Command)) : LabelSource → Prop
  | entry f => '$' ∉ f.toList
  | branch f name => PlainFunction f ∧ (∃ label, name = f ++ "$" ++ label) ∧
      ∀ k : Nat, name ≠ f ++ "$ret." ++ toString k
  | returnTo file f _ => PlainFunction f ∧ (∃ q ∈ view, q.1.function = f) ∧
      ∀ q ∈ view, q.1.function = f → q.1.file = file
  | compareTrue _ | compareEnd _ | bootstrap => True

variable {view : List (Scope × Command)}

theorem plain_head {x : LabelSource} (fits : x.Fits view) : '$' ∉ x.head.toList := by
  cases x with
  | entry f => exact fits
  | branch f name => exact fits.1.plain
  | returnTo file f k => exact fits.1.plain
  | compareTrue n | compareEnd n =>
    intro dollar
    simp only [head, String.toList_append, List.mem_append] at dollar
    rcases dollar with fixed | digits
    · revert fixed; decide
    · cases digits_toString digits
  | bootstrap => decide

/-- Every label but an entry's is its head, a `$` and more. -/
theorem name_eq_head_append {x : LabelSource} (fits : x.Fits view)
    (notEntry : ∀ f, x ≠ entry f) : ∃ tail, x.name = x.head ++ "$" ++ tail := by
  cases x with
  | entry f => exact absurd rfl (notEntry f)
  | branch f name => exact fits.2.1
  | returnTo file f k =>
    refine ⟨"ret." ++ toString k, ?_⟩
    have dollar : "$" ++ "ret." = "$ret." := by decide
    rw [name, head, @String.append_assoc f "$", ← @String.append_assoc "$", dollar,
      String.append_assoc]
  | compareTrue n => exact ⟨"TRUE", by simp [name, head, String.append_assoc]⟩
  | compareEnd n => exact ⟨"END", by simp [name, head, String.append_assoc]⟩
  | bootstrap => exact ⟨"ret", rfl⟩

/-- A label that is no entry's has a `$`, an entry's has none: no entry shares a label with
another source. -/
theorem entry_of_name_eq {f : String} {y : LabelSource} (plain : '$' ∉ f.toList)
    (fits : y.Fits view) (same : f = y.name) : y = entry f := by
  by_cases isEntry : ∃ g, y = entry g
  · obtain ⟨g, rfl⟩ := isEntry
    rw [show f = g from same]
  · obtain ⟨tail, split⟩ := name_eq_head_append fits (fun g isG => isEntry ⟨g, isG⟩)
    rw [same, split] at plain
    simp at plain

theorem compare_head_inj {n m : Nat} (same : "__CMP" ++ toString n = "__CMP" ++ toString m) :
    n = m :=
  repr_injective ((String.append_right_inj _).mp same)

theorem compare_head_ne_bootstrap (n : Nat) : "__CMP" ++ toString n ≠ "__bootstrap" := by
  intro same
  have chars := congrArg String.toList same
  simp at chars

/-- Sources that fit and give one label are one source. -/
theorem eq_of_name_eq {x y : LabelSource} (fitsX : x.Fits view) (fitsY : y.Fits view)
    (same : x.name = y.name) : x = y := by
  -- an entry's label is the only one without a `$`
  by_cases entryX : ∃ f, x = entry f
  · obtain ⟨f, rfl⟩ := entryX
    exact (entry_of_name_eq fitsX fitsY same).symm
  by_cases entryY : ∃ g, y = entry g
  · obtain ⟨g, rfl⟩ := entryY
    exact entry_of_name_eq fitsY fitsX same.symm
  -- the others agree up to their first `$`, so on the name a function, a comparison or the
  -- bootstrap gives them
  have heads : x.head = y.head := by
    obtain ⟨tailX, splitX⟩ := name_eq_head_append fitsX (fun f isF => entryX ⟨f, isF⟩)
    obtain ⟨tailY, splitY⟩ := name_eq_head_append fitsY (fun g isG => entryY ⟨g, isG⟩)
    rw [splitX, splitY] at same
    exact (append_dollar_inj (plain_head fitsX) (plain_head fitsY) same).1
  cases x with
  | entry f => exact absurd ⟨f, rfl⟩ entryX
  | branch f label =>
    cases y with
    | entry g => exact absurd ⟨g, rfl⟩ entryY
    | branch g label' =>
      change f = g at heads
      change label = label' at same
      rw [heads, same]
    | returnTo file g k =>
      change f = g at heads
      subst heads
      exact absurd same (fitsX.2.2 k)
    | compareTrue m | compareEnd m => exact absurd heads (fitsX.1.notCompare m)
    | bootstrap => exact absurd heads fitsX.1.notBootstrap
  | returnTo file f k =>
    cases y with
    | entry g => exact absurd ⟨g, rfl⟩ entryY
    | branch g label =>
      change f = g at heads
      subst heads
      exact absurd same.symm (fitsY.2.2 k)
    | returnTo file' g k' =>
      change f = g at heads
      subst heads
      have calls : k = k' :=
        repr_injective ((String.append_right_inj _).mp same)
      obtain ⟨q, member, function⟩ := fitsX.2.1
      rw [← fitsX.2.2 q member function, fitsY.2.2 q member function, calls]
    | compareTrue m | compareEnd m => exact absurd heads (fitsX.1.notCompare m)
    | bootstrap => exact absurd heads fitsX.1.notBootstrap
  | compareTrue n =>
    cases y with
    | entry g => exact absurd ⟨g, rfl⟩ entryY
    | branch g _ | returnTo _ g _ => exact absurd heads.symm (fitsY.1.notCompare n)
    | compareTrue m => rw [compare_head_inj heads]
    | compareEnd m =>
      rw [← compare_head_inj heads] at same
      simp [name] at same
    | bootstrap => exact absurd heads (compare_head_ne_bootstrap n)
  | compareEnd n =>
    cases y with
    | entry g => exact absurd ⟨g, rfl⟩ entryY
    | branch g _ | returnTo _ g _ => exact absurd heads.symm (fitsY.1.notCompare n)
    | compareTrue m =>
      rw [← compare_head_inj heads] at same
      simp [name] at same
    | compareEnd m => rw [compare_head_inj heads]
    | bootstrap => exact absurd heads (compare_head_ne_bootstrap n)
  | bootstrap =>
    cases y with
    | entry g => exact absurd ⟨g, rfl⟩ entryY
    | branch g _ | returnTo _ g _ => exact absurd heads.symm fitsY.1.notBootstrap
    | compareTrue m | compareEnd m => exact absurd heads.symm (compare_head_ne_bootstrap m)
    | bootstrap => rfl

/-- A source that some commands give, comparisons numbered anyhow, or the bootstrap's. -/
def Produced (view : List (Scope × Command)) (x : LabelSource) : Prop :=
  x = bootstrap ∨ ∃ p ∈ view, ∃ serial, x ∈ p.2.sources p.1 serial

theorem fits_of_produced (separate : SeparateNames view) {x : LabelSource}
    (produced : Produced view x) : x.Fits view := by
  rcases produced with rfl | ⟨p, member, serial, source⟩
  · trivial
  cases x with
  | entry f =>
    rw [entry_mem_sources] at source
    exact separate.entries p member f source
  | branch f name =>
    rw [branch_mem_sources] at source
    obtain ⟨rfl, labelled⟩ := source
    exact ⟨separate.functions p member, separate.labels p member name labelled⟩
  | returnTo file f k =>
    rw [returnTo_mem_sources] at source
    obtain ⟨-, rfl, rfl, -⟩ := source
    exact ⟨separate.functions p member, ⟨p, member, rfl⟩,
      fun q other function => (separate.files p member q other function.symm).symm⟩
  | compareTrue _ | compareEnd _ | bootstrap => trivial

/-- No produced source's label is a predefined symbol when no function is named like one. -/
theorem lookup_name_of_produced (separate : SeparateNames view) {x : LabelSource}
    (produced : Produced view x)
    (entries : ∀ f, entry f = x → predefined.lookup f = none) :
    predefined.lookup x.name = none := by
  by_cases isEntry : ∃ f, x = entry f
  · obtain ⟨f, rfl⟩ := isEntry
    exact entries f rfl
  · obtain ⟨tail, split⟩ :=
      name_eq_head_append (fits_of_produced separate produced) (fun f isF => isEntry ⟨f, isF⟩)
    rw [split]
    exact predefined_lookup_of_dollar (by simp)

end LabelSource

/-- Names a program leaves to the translator: no unit or function name has a `$`, no function is
named like a predefined symbol, the default function of a unit, a comparison or the bootstrap, and
no label of a function `f` is `f$ret.k`, the name of a return point of `f`. -/
structure Unreserved (units : List SourceFile) : Prop where
  plainUnits : ∀ u ∈ units, '$' ∉ u.name.toList
  plainFunctions : ∀ f ∈ functions units, '$' ∉ f.toList
  notPredefined : ∀ f ∈ functions units, predefined.lookup f = none
  notDefault : ∀ f ∈ functions units, ∀ u ∈ units, f ≠ u.name ++ ".__DEFAULT"
  notCompare : ∀ f ∈ functions units, ∀ n : Nat, f ≠ "__CMP" ++ toString n
  notBootstrap : ∀ f ∈ functions units, f ≠ "__bootstrap"
  notReturnTag : ∀ l ∈ branchLabels units, ∀ k : Nat, l.2 ≠ l.1 ++ "$ret." ++ toString k

theorem mem_functions {units : List SourceFile} {u : SourceFile} (unit : u ∈ units) {f : String}
    (defined : f ∈ u.functions) : f ∈ functions units :=
  List.mem_flatMap.mpr ⟨u, unit, defined⟩

/-- The default function of a unit is plain: it has a `.`, which no comparison or bootstrap name
has. -/
theorem plainFunction_default {name : String} (plain : '$' ∉ name.toList) :
    PlainFunction (name ++ ".__DEFAULT") where
  plain := by
    simp only [String.toList_append, List.mem_append, not_or]
    exact ⟨plain, by decide⟩
  notCompare n same := by
    have dot : '.' ∈ ("__CMP" ++ toString n).toList := by
      rw [← same]
      simp
    simp only [String.toList_append, List.mem_append] at dot
    rcases dot with fixed | digits
    · revert fixed; decide
    · cases digits_toString digits
  notBootstrap same := by
    have dot : '.' ∈ "__bootstrap".toList := by
      rw [← same]
      simp
    revert dot; decide

section Program

variable {units : List SourceFile} (named : WellNamed units) (free : Unreserved units)
  (reads : ∀ u ∈ units, u.read = .ok u.commands)

include free in
theorem plainFunction_of_mem_functions {f : String} (defined : f ∈ functions units) :
    PlainFunction f :=
  ⟨free.plainFunctions f defined, free.notCompare f defined, free.notBootstrap f defined⟩

include named free in
/-- A function belongs to one file: the default functions of units with distinct names differ,
no function is named like a default one, and no function is defined in two units. -/
theorem file_eq_of_function_eq {p q : Scope × Command} (first : p ∈ programView units)
    (second : q ∈ programView units) (function : p.1.function = q.1.function) :
    p.1.file = q.1.file := by
  obtain ⟨u, unitU, inU⟩ := List.mem_flatMap.mp first
  obtain ⟨v, unitV, inV⟩ := List.mem_flatMap.mp second
  obtain ⟨fileP, functionP⟩ := scope_of_mem_scoped inU
  obtain ⟨fileQ, functionQ⟩ := scope_of_mem_scoped inV
  rw [fileP, fileQ]
  rcases functionP with defaultP | definedP <;> rcases functionQ with defaultQ | definedQ
  · rw [defaultP, defaultQ] at function
    exact (String.append_left_inj _).mp function
  · rw [function] at defaultP
    exact absurd defaultP (free.notDefault _ (mem_functions unitV definedQ) u unitU)
  · rw [← function] at defaultQ
    exact absurd defaultQ (free.notDefault _ (mem_functions unitU definedP) v unitV)
  · rw [function] at definedP
    -- a function defined in two units would stand twice in the program's functions
    by_contra differ
    have symm : Std.Symm (Function.onFun List.Disjoint SourceFile.functions) :=
      ⟨fun _ _ apart _ second first => apart first second⟩
    exact (List.nodup_flatMap.mp named.definedOnce).2.forall unitU unitV
      (fun same => differ (same ▸ rfl)) definedP definedQ

include named free reads in
theorem separateNames_programView : SeparateNames (programView units) where
  functions p member := by
    obtain ⟨u, unit, inUnit⟩ := List.mem_flatMap.mp member
    rcases (scope_of_mem_scoped inUnit).2 with default | defined
    · rw [default]
      exact plainFunction_default (free.plainUnits u unit)
    · exact plainFunction_of_mem_functions free (mem_functions unit defined)
  entries p member f defines := by
    obtain ⟨u, unit, inUnit⟩ := List.mem_flatMap.mp member
    have defined : f ∈ u.functions := by
      rw [← defines_scoped]
      exact List.mem_filterMap.mpr ⟨p, inUnit, defines⟩
    exact free.plainFunctions f (mem_functions unit defined)
  labels p member name labelled := by
    obtain ⟨u, unit, inUnit⟩ := List.mem_flatMap.mp member
    have named := scoped_named (reads u unit) p inUnit
    have listed : (p.1.function, name) ∈ branchLabels units :=
      List.mem_filterMap.mpr ⟨p, member, by rw [labelled]; rfl⟩
    refine ⟨?_, free.notReturnTag _ listed⟩
    cases command : p.2 with
    | branch kind label =>
      rw [command] at labelled named
      cases kind <;> simp only [Command.labelName?, Option.some.injEq, reduceCtorEq] at labelled
      obtain ⟨user, -, rfl⟩ := named
      exact ⟨user, labelled.symm⟩
    | _ => rw [command] at labelled; cases labelled
  files p first q second function := file_eq_of_function_eq named free first second function

end Program

theorem produced_of_mem_programSources {units : List SourceFile} {options : Options}
    {x : LabelSource}
    (member : x ∈ programSources units options) : LabelSource.Produced (programView units) x := by
  rw [programSources, List.mem_append] at member
  rcases member with boot | later
  · split at boot
    · exact .inl (List.mem_singleton.mp boot)
    · cases boot
  · obtain ⟨p, inView, serial, -, source⟩ := mem_sourcesFrom later
    exact .inr ⟨p, inView, serial, source⟩

section Translated

variable {units : List SourceFile} {options : Options} {text : String}
  (named : WellNamed units) (free : Unreserved units) (translated : translate units options = .ok text)

include named free translated in
/-- A well-named program that leaves the translator its names defines each label of its text
once. -/
theorem nodup_definedLabels_translate : (Asm.definedLabels text).Nodup := by
  have separate := separateNames_programView named free (translate_eq_ok translated).1
  rw [definedLabels_translate named.unitSymbols translated]
  refine List.Nodup.map_on (fun x first y second same => ?_) (nodup_programSources named options)
  exact LabelSource.eq_of_name_eq
    (LabelSource.fits_of_produced separate (produced_of_mem_programSources first))
    (LabelSource.fits_of_produced separate (produced_of_mem_programSources second)) same

include named free translated in
/-- No label of the text of a program that leaves the translator its names is a predefined
symbol. -/
theorem lookup_definedLabels_translate :
    ∀ name ∈ Asm.definedLabels text, predefined.lookup name = none := by
  have separate := separateNames_programView named free (translate_eq_ok translated).1
  rw [definedLabels_translate named.unitSymbols translated]
  intro name member
  obtain ⟨x, source, rfl⟩ := List.mem_map.mp member
  have produced := produced_of_mem_programSources source
  refine LabelSource.lookup_name_of_produced separate produced fun f isEntry => ?_
  subst isEntry
  rcases produced with boot | ⟨p, inView, serial, entry⟩
  · cases boot
  · obtain ⟨u, unit, inUnit⟩ := List.mem_flatMap.mp inView
    have defined : f ∈ u.functions := by
      rw [← defines_scoped]
      exact List.mem_filterMap.mpr ⟨p, inUnit, entry_mem_sources.mp entry⟩
    exact free.notPredefined f (mem_functions unit defined)

end Translated

/-- A program whose units have distinct symbol names, whose functions are each defined once and
whose labels are each defined once in their function, and which leaves the translator its names,
translates to text that defines every label once; so the assembler never refuses it for a label
defined twice. -/
theorem translate_labels_unique {units : List SourceFile} {options : Options} {text : String}
    (named : WellNamed units) (free : Unreserved units)
    (translated : translate units options = .ok text) :
    (Asm.definedLabels text).Nodup ∧
      ∀ (file : String) (e : Asm.LineError), Asm.assemble file text = .error e →
        ∀ name previous, e.error ≠ .redefinedLabel name previous := by
  have distinct := nodup_definedLabels_translate named free translated
  exact ⟨distinct, fun file e failed name previous =>
    Asm.assemble_error_ne_redefined file text distinct
      (lookup_definedLabels_translate named free translated) e failed name previous⟩

/-- A unit whose function loops on a label, compares and calls itself. -/
def loopUnit : SourceFile :=
  ⟨"Main", "Main.vm", "function Main.loop 0\nlabel LOOP\neq\ncall Main.loop 0\nreturn\n"⟩

theorem translate_labels_unique_sample :
    WellNamed [loopUnit] ∧ Unreserved [loopUnit] ∧
      ∃ text, translate [loopUnit] {} = .ok text ∧ (Asm.definedLabels text).Nodup ∧
        ∀ (file : String) (e : Asm.LineError), Asm.assemble file text = .error e →
          ∀ name previous, e.error ≠ .redefinedLabel name previous := by
  have read : loopUnit.read = .ok [.define "Main.loop" 0, .branch .label "Main.loop$LOOP",
      .arithmetic .eq, .call "Main.loop" 0 "Main.loop$ret.0", .ret] := by
    rfl
  have commands : loopUnit.commands = [.define "Main.loop" 0, .branch .label "Main.loop$LOOP",
      .arithmetic .eq, .call "Main.loop" 0 "Main.loop$ret.0", .ret] := by
    rw [SourceFile.commands, read]
  have reads : ∀ u ∈ [loopUnit], u.read = .ok u.commands := by
    simp only [List.mem_singleton, forall_eq, read, commands]
  have defined : functions [loopUnit] = ["Main.loop"] := by
    simp only [functions, SourceFile.functions, List.flatMap_cons, List.flatMap_nil,
      List.append_nil, commands]
    rfl
  have labelled : branchLabels [loopUnit] = [("Main.loop", "Main.loop$LOOP")] := by
    simp only [branchLabels, programView, List.flatMap_cons, List.flatMap_nil, List.append_nil,
      SourceFile.scoped, commands, Scope.annotate, Scope.init, Scope.advance]
    rfl
  have named : WellNamed [loopUnit] :=
    ⟨by decide, by decide, by rw [defined]; decide, by rw [labelled]; decide⟩
  have free : Unreserved [loopUnit] := by
    refine ⟨by decide, ?_, ?_, ?_, ?_, ?_, ?_⟩ <;>
      simp only [defined, labelled, List.mem_singleton, forall_eq]
    · decide
    · decide
    · decide
    · intro n same
      have chars := congrArg String.toList same
      simp at chars
    · decide
    · intro k same
      have chars := congrArg String.toList same
      simp at chars
  have translated := translate_of_read {} reads
  exact ⟨named, free, _, translated, translate_labels_unique named free translated⟩

/-- A unit whose function `f` calls and then defines the label `ret.0`. -/
def returnLabelUnit : SourceFile :=
  ⟨"Main", "Main.vm", "function f 0\ncall f 0\nlabel ret.0\n"⟩

/-- A label `ret.0` in a function that calls: the program keeps the naming discipline, yet its
text defines the return point `f$ret.0` twice. -/
theorem returnLabel_clash :
    ∃ text, WellNamed [returnLabelUnit] ∧
      translate [returnLabelUnit] { bootstrap := false } = .ok text ∧
        ¬ (Asm.definedLabels text).Nodup := by
  have read : returnLabelUnit.read =
      .ok [.define "f" 0, .call "f" 0 "f$ret.0", .branch .label "f$ret.0"] := by
    rfl
  have commands : returnLabelUnit.commands =
      [.define "f" 0, .call "f" 0 "f$ret.0", .branch .label "f$ret.0"] := by
    rw [SourceFile.commands, read]
  have reads : ∀ u ∈ [returnLabelUnit], u.read = .ok u.commands := by
    simp only [List.mem_singleton, forall_eq, read, commands]
  have view : programView [returnLabelUnit] =
      [(⟨"Main", "Main.__DEFAULT", 0⟩, .define "f" 0),
        (⟨"Main", "f", 0⟩, .call "f" 0 "f$ret.0"),
        (⟨"Main", "f", 1⟩, .branch .label "f$ret.0")] := by
    simp only [programView, List.flatMap_cons, List.flatMap_nil, List.append_nil,
      SourceFile.scoped, commands, Scope.annotate, Scope.init, Scope.advance]
    rfl
  have named : WellNamed [returnLabelUnit] := by
    refine ⟨by decide, by decide, ?_, ?_⟩
    · simp only [functions, SourceFile.functions, List.flatMap_cons, List.flatMap_nil,
        List.append_nil, commands]
      decide
    · rw [branchLabels, view]
      decide
  have translated := translate_of_read { bootstrap := false } reads
  refine ⟨_, named, translated, ?_⟩
  rw [definedLabels_translate named.unitSymbols translated, programSources, view]
  decide

end Hack.Vm
