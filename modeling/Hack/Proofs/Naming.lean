import Hack.Vm.Translate
import Hack.Proofs.CommandGrammar
/-! The global names a command carries from the scope it is read in, and translation as the code of the
commands read. -/

set_option autoImplicit false

namespace Hack.Vm

theorem bind_eq_ok {ε α β : Type} {x : Except ε α} {f : α → Except ε β} {b : β}
    (h : x >>= f = .ok b) : ∃ a, x = .ok a ∧ f a = .ok b := by
  cases x with
  | error e => cases h
  | ok a => exact ⟨a, rfl, h⟩

theorem map_eq_ok {ε α β : Type} {x : Except ε α} {f : α → β} {b : β}
    (h : f <$> x = .ok b) : ∃ a, x = .ok a ∧ f a = b := by
  cases x with
  | error e => cases h
  | ok a => exact ⟨a, rfl, by cases h; rfl⟩

def Slot.Named (s : Scope) (access : Access) : Slot → Prop
  | .constant _ => access = .push
  | .static name => ∃ i : Nat, name = s.file ++ "." ++ toString i
  | .temp _ | .pointer _ | .frame .. => True

def Command.Named (s : Scope) : Command → Prop
  | .arithmetic _ | .ret => True
  | .memory access slot => slot.Named s access
  | .branch _ name => ∃ label, isSymbol label ∧ name = s.function ++ "$" ++ label
  | .define name _ => isSymbol name
  | .call name _ tag => isSymbol name ∧ tag = s.function ++ "$ret." ++ toString s.calls

/-- A slot the grammar admits is named in the file: no pop into the constant segment, and a static
is `File.i`. -/
theorem Segment.slotIn_named {s : Scope} {access : Access} {segment : Segment} {n : UInt16}
    (notPopConstant : ¬ (access = .pop ∧ segment = .constant)) :
    (segment.slotIn s.file n).Named s access := by
  cases segment
  case constant =>
    cases access
    · rfl
    · exact absurd ⟨rfl, rfl⟩ notPopConstant
  case static => exact ⟨n.toNat, rfl⟩
  all_goals trivial

theorem readWords_named {s : Scope} {head : String} {args : List String} {cmd : Command}
    (h : s.readWords head args = .ok (some cmd)) : cmd.Named s := by
  -- only the rules that give a command remain; each builds its names from the scope
  cases commandGrammar_of_readWords h with
  | arithmetic op => trivial
  | ret => trivial
  | memory access segment number notPopConstant admitted =>
    exact Segment.slotIn_named notPopConstant
  | branch kind symbol => exact ⟨_, symbol, rfl⟩
  | define symbol number => exact symbol
  | call symbol number fits => exact ⟨symbol, rfl⟩

theorem read_named {s : Scope} {line : String} {cmd : Command}
    (h : s.read line = .ok (some cmd)) : cmd.Named s := by
  unfold Scope.read at h
  split at h
  · cases h
  · exact readWords_named h

/-- Each command with the scope it is read in. -/
def Scope.annotate : Scope → List Command → List (Scope × Command)
  | _, [] => []
  | s, cmd :: rest => (s, cmd) :: annotate (s.advance cmd) rest

/-- Every command of a file read line by line is what its scope reads from one of the lines. -/
theorem readLines_read (path : String) : ∀ (s : Scope) (ls : List (Nat × String))
    (cmds : List Command) (final : Scope), s.readLines path ls = .ok (cmds, final) →
    ∀ p ∈ s.annotate cmds, ∃ line, p.1.read line = .ok (some p.2)
  | s, [], cmds, final, h => by
    cases h
    simp [Scope.annotate]
  | s, (index, raw) :: rest, cmds, final, h => by
    unfold Scope.readLines at h
    cases hread : s.read raw with
    | error err => simp [Scope.step, hread] at h
    | ok c =>
      cases c with
      | none =>
        simp only [Scope.step, hread] at h
        split at h
        · cases h
          exact readLines_read path s rest _ _ (by assumption)
        · cases h
      | some cmd =>
        simp only [Scope.step, hread] at h
        split at h
        · rename_i rest' final' later
          cases h
          have read := readLines_read path (s.advance cmd) rest _ _ later
          intro p member
          simp only [Option.toList_some, List.singleton_append, Scope.annotate,
            List.mem_cons] at member
          rcases member with rfl | member
          · exact ⟨raw, hread⟩
          · exact read p member
        · cases h

/-- Writes a command that the reader gives: its code, and one more comparison if it is one. -/
def Emitter.put (e : Emitter) (cmd : Command) : Emitter :=
  let e' := e.emitAll (cmd.lower e.compareCount)
  if cmd.isComparison then { e' with compareCount := e'.compareCount + 1 } else e'

theorem write_of_named {s : Scope} {cmd : Command} (named : cmd.Named s) (e : Emitter) :
    e.write cmd = .ok (e.put cmd) := by
  cases cmd with
  | memory access slot =>
    cases slot with
    | constant v =>
      cases access with
      | push => rfl
      | pop => cases named
    | _ => cases access <;> rfl
  | _ => rfl

theorem translateLines_eq (path : String) : ∀ (s : Scope) (e : Emitter) (ls : List (Nat × String)),
    translateLines path s e ls = (s.readLines path ls).map fun r => r.1.foldl Emitter.put e
  | s, e, [] => rfl
  | s, e, (index, raw) :: rest => by
    unfold translateLines Scope.readLines
    cases hread : s.read raw with
    | error err => simp [Scope.step, hread, Except.map]
    | ok c =>
      cases c with
      | none =>
        simp only [Scope.step, hread, translateLines_eq path s e rest]
        cases s.readLines path rest <;> rfl
      | some cmd =>
        simp only [Scope.step, hread, write_of_named (read_named hread),
          translateLines_eq path (s.advance cmd) (e.put cmd) rest]
        cases (s.advance cmd).readLines path rest <;> rfl

/-- The commands of a unit, read in order. -/
def SourceFile.read (u : SourceFile) : Except LineError (List Command) :=
  ((Scope.init u.name).parse u.path u.source).map Prod.fst

/-- The commands of a unit, or none if it cannot be read. -/
def SourceFile.commands (u : SourceFile) : List Command :=
  match u.read with
  | .ok cmds => cmds
  | .error _ => []

theorem translateUnit_eq (e : Emitter) (u : SourceFile) :
    translateUnit e u = u.read.map fun cmds => cmds.foldl Emitter.put e := by
  unfold translateUnit SourceFile.read Scope.parse
  rw [translateLines_eq]
  cases (Scope.init u.name).readLines u.path _ <;> rfl

theorem foldlM_translateUnit_of_read (units : List SourceFile)
    (reads : ∀ u ∈ units, u.read = .ok u.commands) (e : Emitter) :
    units.foldlM translateUnit e = .ok ((units.flatMap SourceFile.commands).foldl Emitter.put e) := by
  induction units generalizing e with
  | nil => rfl
  | cons u rest ih =>
    rw [List.foldlM_cons, translateUnit_eq, reads u (by simp)]
    simp only [Except.map, bind, Except.bind, List.flatMap_cons, List.foldl_append]
    exact ih (fun v member => reads v (by simp [member])) _

theorem read_of_foldlM_translateUnit (units : List SourceFile) (e e' : Emitter)
    (h : units.foldlM translateUnit e = .ok e') : ∀ u ∈ units, u.read = .ok u.commands := by
  induction units generalizing e with
  | nil => simp
  | cons u rest ih =>
    rw [List.foldlM_cons, translateUnit_eq] at h
    cases hread : u.read with
    | error err => simp [hread, Except.map, bind, Except.bind] at h
    | ok cmds =>
      simp only [hread, Except.map, bind, Except.bind] at h
      intro v member
      rcases List.mem_cons.mp member with rfl | member
      · simp [SourceFile.commands, hread]
      · exact ih _ h v member

/-- The emitter a translation starts from: empty, or holding the bootstrap code. -/
def Emitter.start (options : Options) : Emitter :=
  if options.bootstrap then ({ annotate := options.annotate } : Emitter).bootstrap
  else { annotate := options.annotate }

/-- A translation reads every unit, and its text is the code of all their commands. -/
theorem translate_eq_ok {units : List SourceFile} {options : Options} {text : String}
    (translated : translate units options = .ok text) :
    (∀ u ∈ units, u.read = .ok u.commands) ∧
      text = ((units.flatMap SourceFile.commands).foldl Emitter.put (Emitter.start options)).finish := by
  have unfolded : translate units options =
      (units.foldlM translateUnit (Emitter.start options)).map Emitter.finish := rfl
  rw [unfolded] at translated
  cases result : units.foldlM translateUnit (Emitter.start options) with
  | error err =>
    rw [result] at translated
    cases translated
  | ok e =>
    rw [result] at translated
    have reads := read_of_foldlM_translateUnit units _ e result
    rw [foldlM_translateUnit_of_read units reads] at result
    cases result
    cases translated
    exact ⟨reads, rfl⟩

/-- A program whose units all read is translated, into the code of all their commands. -/
theorem translate_of_read {units : List SourceFile} (options : Options)
    (reads : ∀ u ∈ units, u.read = .ok u.commands) :
    translate units options =
      .ok ((units.flatMap SourceFile.commands).foldl Emitter.put (Emitter.start options)).finish := by
  have unfolded : translate units options =
      (units.foldlM translateUnit (Emitter.start options)).map Emitter.finish := rfl
  rw [unfolded, foldlM_translateUnit_of_read units reads]
  rfl

/-- Each command of a unit with the scope it is read in. -/
def SourceFile.scoped (u : SourceFile) : List (Scope × Command) :=
  (Scope.init u.name).annotate u.commands

/-- The function a command defines, if it is a definition. -/
def Command.defines? : Command → Option String
  | .define name _ => some name
  | _ => none

/-- The label a command puts in the code, if it is a `label` command. -/
def Command.labelName? : Command → Option String
  | .branch .label name => some name
  | _ => none

theorem map_snd_annotate : ∀ (s : Scope) (cmds : List Command),
    (s.annotate cmds).map Prod.snd = cmds
  | _, [] => rfl
  | s, cmd :: rest => congrArg (cmd :: ·) (map_snd_annotate (s.advance cmd) rest)

/-- Every command of a unit that reads is what its scope reads from one of the unit's lines. -/
theorem scoped_read {u : SourceFile} (reads : u.read = .ok u.commands) :
    ∀ p ∈ u.scoped, ∃ line, p.1.read line = .ok (some p.2) := by
  unfold SourceFile.read at reads
  cases parsed : (Scope.init u.name).parse u.path u.source with
  | error err =>
    rw [parsed] at reads
    cases reads
  | ok result =>
    rw [parsed] at reads
    obtain ⟨cmds, final⟩ := result
    cases reads
    exact readLines_read u.path _ _ _ final parsed

theorem scoped_named {u : SourceFile} (reads : u.read = .ok u.commands) :
    ∀ p ∈ u.scoped, p.2.Named p.1 := by
  intro p member
  obtain ⟨line, hread⟩ := scoped_read reads p member
  exact read_named hread

/-- Reading never leaves the file it started in. -/
theorem file_of_mem_annotate : ∀ (s : Scope) (cmds : List Command), ∀ p ∈ s.annotate cmds,
    p.1.file = s.file
  | _, [], _, member => by cases member
  | s, cmd :: rest, p, member => by
    rcases List.mem_cons.mp member with rfl | later
    · rfl
    · rw [file_of_mem_annotate _ rest p later]
      cases cmd <;> rfl

/-- The function of a scope is the one reading started in, or one the file defines. -/
theorem function_of_mem_annotate : ∀ (s : Scope) (cmds : List Command), ∀ p ∈ s.annotate cmds,
    p.1.function = s.function ∨ p.1.function ∈ cmds.filterMap Command.defines?
  | _, [], _, member => by cases member
  | s, cmd :: rest, p, member => by
    rcases List.mem_cons.mp member with rfl | later
    · exact .inl rfl
    · rcases function_of_mem_annotate _ rest p later with same | defined
      · cases cmd with
        | define name locals => exact .inr (by simp [same, Scope.advance, Command.defines?])
        | _ => exact .inl same
      · cases cmd with
        | define name locals => exact .inr (List.mem_cons_of_mem _ defined)
        | _ => exact .inr defined

/-- The call count of a scope never falls while reading. -/
theorem calls_le_of_mem_annotate : ∀ (s : Scope) (cmds : List Command), ∀ p ∈ s.annotate cmds,
    s.calls ≤ p.1.calls
  | _, [], _, member => by cases member
  | s, cmd :: rest, p, member => by
    rcases List.mem_cons.mp member with rfl | later
    · exact Nat.le_refl _
    · have step : s.calls ≤ (s.advance cmd).calls := by
        cases cmd <;> simp [Scope.advance]
      exact Nat.le_trans step (calls_le_of_mem_annotate _ rest p later)

/-- A call is read with a smaller count than every command after it. -/
theorem annotate_calls_lt : ∀ (s : Scope) (cmds : List Command),
    (s.annotate cmds).Pairwise fun p q => (∃ name args tag, p.2 = .call name args tag) →
      p.1.calls < q.1.calls
  | _, [] => List.Pairwise.nil
  | s, cmd :: rest => by
    refine List.Pairwise.cons ?_ (annotate_calls_lt (s.advance cmd) rest)
    rintro q later ⟨name, args, tag, rfl⟩
    have after := calls_le_of_mem_annotate _ rest q later
    simp only [Scope.advance] at after
    show s.calls < q.1.calls
    omega

end Hack.Vm
