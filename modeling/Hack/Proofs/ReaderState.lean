import Hack.Proofs.LabelUniqueness
import Hack.Proofs.StatementText
/-! The reader's state along a file: the call count and current function after any lines, and the
return tags of one file all distinct. -/

set_option autoImplicit false

namespace Hack.Vm

/-- The command a line gave when it was read, if it gave one. -/
def commandOf : Except Error (Option Command) → Option Command
  | .ok cmd => cmd
  | .error _ => none

theorem eq_ok_of_commandOf {r : Except Error (Option Command)} {cmd : Command}
    (given : commandOf r = some cmd) : r = .ok (some cmd) := by
  cases r with
  | error e => cases given
  | ok c =>
    simp only [commandOf] at given
    rw [given]

/-- Whether a command is a call. -/
def Command.isCall : Command → Bool
  | .call .. => true
  | _ => false

/-- The return tag of a call. -/
def Command.returnTag? : Command → Option String
  | .call _ _ tag => some tag
  | _ => none

theorem Command.eq_call_of_returnTag? {cmd : Command} {tag : String}
    (tagged : cmd.returnTag? = some tag) : ∃ name args, cmd = .call name args tag := by
  cases cmd with
  | call name args tag' =>
    simp only [Command.returnTag?, Option.some.injEq] at tagged
    exact ⟨name, args, tagged ▸ rfl⟩
  | _ => cases tagged

/-- A return tag determines its count: the count's digits are what stands after its last `.`. -/
theorem count_eq_of_returnTag_eq {f g : String} {k m : Nat}
    (same : f ++ "$ret." ++ toString k = g ++ "$ret." ++ toString m) : k = m := by
  -- reversed, each tag starts with its count's digits and then the `.` of `$ret.`
  have reversed := congrArg (fun t : String => t.toList.reverse) same
  simp only [String.toList_append, List.reverse_append] at reversed
  have noDot : ∀ n : Nat, '.' ∉ (toString n).toList.reverse := fun n member =>
    absurd (digits_toString (List.mem_reverse.mp member)) (by decide)
  have cut := congrArg (Text.splitAtChar '.') reversed
  change Text.splitAtChar '.' ((toString k).toList.reverse ++ '.' :: _) =
    Text.splitAtChar '.' ((toString m).toList.reverse ++ '.' :: _) at cut
  rw [Text.splitAtChar_append_cons _ (noDot k), Text.splitAtChar_append_cons _ (noDot m)] at cut
  have digits : (toString k).toList = (toString m).toList :=
    List.reverse_inj.mp (Prod.mk.inj (Option.some.inj cut)).1
  exact repr_injective (String.toList_inj.mp digits)

namespace Scope

/-- What each line gives when lines are read one after another, each in the scope the lines
before it left. -/
def results : Scope → List String → List (Except Error (Option Command))
  | _, [] => []
  | s, line :: rest => (s.step line).1 :: results (s.step line).2 rest

/-- The scope after reading lines one after another. -/
def after : Scope → List String → Scope
  | s, [] => s
  | s, line :: rest => after (s.step line).2 rest

/-- The commands given while reading lines one after another. -/
def commandsRead (s : Scope) (lines : List String) : List Command :=
  (s.results lines).filterMap commandOf

@[simp] theorem step_fst (s : Scope) (line : String) : (s.step line).1 = s.read line := by
  cases reading : s.read line with
  | error e => simp [step, reading]
  | ok c => cases c <;> simp [step, reading]

/-- A line moves the scope past the command it gives, and leaves it where it gives none. -/
theorem step_snd (s : Scope) (line : String) :
    (s.step line).2 = (commandOf (s.read line)).elim s s.advance := by
  cases reading : s.read line with
  | error e => simp [step, reading, commandOf]
  | ok c => cases c <;> simp [step, reading, commandOf]

theorem step_unchanged {s : Scope} {line : String} (quiet : commandOf (s.step line).1 = none) :
    (s.step line).2 = s := by
  rw [step_fst] at quiet
  rw [step_snd, quiet]
  rfl

theorem advance_file (s : Scope) (cmd : Command) : (s.advance cmd).file = s.file := by
  cases cmd <;> rfl

theorem advance_calls (s : Scope) (cmd : Command) :
    (s.advance cmd).calls = s.calls + [cmd].countP Command.isCall := by
  cases cmd <;> rfl

theorem advance_function (s : Scope) (cmd : Command) :
    (s.advance cmd).function = cmd.defines?.getD s.function := by
  cases cmd <;> rfl

theorem step_file (s : Scope) (line : String) : (s.step line).2.file = s.file := by
  rw [step_snd]
  cases commandOf (s.read line) with
  | none => rfl
  | some cmd => exact advance_file s cmd

theorem step_calls (s : Scope) (line : String) :
    (s.step line).2.calls = s.calls + (commandOf (s.read line)).toList.countP Command.isCall := by
  rw [step_snd]
  cases commandOf (s.read line) with
  | none => rfl
  | some cmd => exact advance_calls s cmd

theorem step_function (s : Scope) (line : String) :
    (s.step line).2.function =
      ((commandOf (s.read line)).toList.filterMap Command.defines?).getLast?.getD s.function := by
  rw [step_snd]
  cases commandOf (s.read line) with
  | none => rfl
  | some cmd =>
    rw [Option.elim_some, advance_function]
    cases defined : cmd.defines? <;> simp [defined]

theorem commandsRead_cons (s : Scope) (line : String) (rest : List String) :
    s.commandsRead (line :: rest) =
      (commandOf (s.read line)).toList ++ (s.step line).2.commandsRead rest := by
  cases given : commandOf (s.read line) <;> simp [commandsRead, results, given]

theorem after_file (s : Scope) (lines : List String) : (s.after lines).file = s.file := by
  induction lines generalizing s with
  | nil => rfl
  | cons line rest ih => rw [after, ih, step_file]

/-- The call count grows by the calls read. -/
theorem after_calls (s : Scope) (lines : List String) :
    (s.after lines).calls = s.calls + (s.commandsRead lines).countP Command.isCall := by
  induction lines generalizing s with
  | nil => rfl
  | cons line rest ih =>
    rw [after, ih, step_calls, commandsRead_cons, List.countP_append, Nat.add_assoc]

/-- The current function is the one defined last, or the one reading started in. -/
theorem after_function (s : Scope) (lines : List String) :
    (s.after lines).function =
      ((s.commandsRead lines).filterMap Command.defines?).getLast?.getD s.function := by
  induction lines generalizing s with
  | nil => rfl
  | cons line rest ih =>
    rw [after, ih, step_function, commandsRead_cons, List.filterMap_append, List.getLast?_append,
      Option.getD_or]

theorem read_call_tag {s : Scope} {line name : String} {args : UInt16} {tag : String}
    (reading : s.read line = .ok (some (.call name args tag))) :
    tag = s.function ++ "$ret." ++ toString s.calls :=
  (read_named reading).2

/-- Every return tag read from a scope counts at least the calls the scope has seen. -/
theorem returnTag_counts (s : Scope) (lines : List String) :
    ∀ tag ∈ (s.commandsRead lines).filterMap Command.returnTag?,
      ∃ f k, tag = f ++ "$ret." ++ toString k ∧ s.calls ≤ k := by
  induction lines generalizing s with
  | nil =>
    intro tag member
    cases member
  | cons line rest ih =>
    intro tag member
    rw [commandsRead_cons, List.filterMap_append, List.mem_append] at member
    rcases member with here | later
    · obtain ⟨cmd, given, tagged⟩ := List.mem_filterMap.mp here
      obtain ⟨name, args, rfl⟩ := Command.eq_call_of_returnTag? tagged
      exact ⟨s.function, s.calls,
        read_call_tag (eq_ok_of_commandOf (Option.mem_toList.mp given)), Nat.le_refl _⟩
    · obtain ⟨f, k, named, counted⟩ := ih _ tag later
      exact ⟨f, k, named, by rw [step_calls] at counted; omega⟩

/-- No return tag is read twice from one scope. -/
theorem returnTags_nodup (s : Scope) (lines : List String) :
    ((s.commandsRead lines).filterMap Command.returnTag?).Nodup := by
  induction lines generalizing s with
  | nil => exact List.nodup_nil
  | cons line rest ih =>
    rw [commandsRead_cons, List.filterMap_append]
    cases given : commandOf (s.read line) with
    | none => exact ih _
    | some cmd =>
      cases tagged : cmd.returnTag? with
      | none => simpa [tagged] using ih _
      | some tag =>
        -- the call counts the calls before it, and every later tag counts past it
        obtain ⟨name, args, rfl⟩ := Command.eq_call_of_returnTag? tagged
        have here := read_call_tag (eq_ok_of_commandOf given)
        have stepped := step_calls s line
        rw [given] at stepped
        simp only [Option.toList_some, List.filterMap_cons, List.filterMap_nil, tagged,
          List.singleton_append, List.nodup_cons]
        refine ⟨fun later => ?_, ih _⟩
        obtain ⟨f, k, named, counted⟩ := returnTag_counts _ rest tag later
        have same := count_eq_of_returnTag_eq (here.symm.trans named)
        simp [Command.isCall] at stepped
        omega

/-- Lines that all read: the first gives a command or nothing, and the others all read from the
scope it leaves. -/
theorem ok_of_results_cons {s : Scope} {line : String} {rest : List String}
    (allOk : ∀ r ∈ s.results (line :: rest), r.isOk) :
    (∃ c, s.read line = .ok c) ∧ ∀ r ∈ (s.step line).2.results rest, r.isOk := by
  refine ⟨?_, fun r member => allOk r (List.mem_cons_of_mem _ member)⟩
  have firstOk := allOk _ List.mem_cons_self
  rw [step_fst] at firstOk
  cases reads : s.read line with
  | error e =>
    rw [reads] at firstOk
    cases firstOk
  | ok c => exact ⟨c, rfl⟩

/-- A line that reads without error is passed over: its command, if any, is kept, and the lines
after it are read from the scope it leaves. -/
theorem readLines_cons_of_ok {path : String} {s : Scope} {index : Nat} {raw : String}
    {rest : List (Nat × String)} {c : Option Command} (reading : s.read raw = .ok c) :
    s.readLines path ((index, raw) :: rest) =
      ((s.step raw).2.readLines path rest).map (Prod.map (c.toList ++ ·) id) := by
  rcases stepping : s.step raw with ⟨first, next⟩
  have passed : first = .ok c := by rw [← reading, ← step_fst, stepping]
  subst passed
  simp only [readLines, stepping]
  cases next.readLines path rest <;> rfl

/-- Lines that all read without error are read to their end. -/
theorem readLines_of_ok (path : String) (s : Scope) (ls : List (Nat × String))
    (allOk : ∀ r ∈ s.results (ls.map Prod.snd), r.isOk) :
    s.readLines path ls = .ok (s.commandsRead (ls.map Prod.snd), s.after (ls.map Prod.snd)) := by
  induction ls generalizing s with
  | nil => rfl
  | cons entry rest ih =>
    obtain ⟨index, raw⟩ := entry
    obtain ⟨⟨c, reading⟩, restOk⟩ := ok_of_results_cons allOk
    rw [readLines_cons_of_ok reading, ih _ restOk]
    simp [commandsRead_cons, reading, commandOf, after, Except.map]

/-- Lines read without error up to one that fails stop there, with its error. -/
theorem readLines_of_error (path : String) (s : Scope) (pre : List (Nat × String)) (index : Nat)
    (raw : String) (post : List (Nat × String)) (e : Error)
    (allOk : ∀ r ∈ s.results (pre.map Prod.snd), r.isOk)
    (fails : (s.after (pre.map Prod.snd)).read raw = .error e) :
    s.readLines path (pre ++ (index, raw) :: post) = .error (Located.at path index raw e) := by
  induction pre generalizing s with
  | nil =>
    simp only [List.map_nil, after] at fails
    simp [readLines, step, fails]
  | cons entry rest ih =>
    obtain ⟨index', raw'⟩ := entry
    obtain ⟨⟨c, reading⟩, restOk⟩ := ok_of_results_cons allOk
    rw [List.cons_append, readLines_cons_of_ok reading, ih _ restOk fails]
    rfl

theorem map_snd_numbered (lines : List String) (n : Nat) :
    ((lines.zipIdx n).map fun p => (p.2, p.1)).map Prod.snd = lines := by
  rw [List.map_map]
  exact List.zipIdx_map_fst n lines

/-- A text whose lines all read is read to its end, as the run of its lines. -/
theorem parse_of_ok (s : Scope) (path source : String)
    (allOk : ∀ r ∈ s.results (Text.lines source), r.isOk) :
    s.parse path source = .ok (s.commandsRead (Text.lines source), s.after (Text.lines source)) := by
  show s.readLines path ((Text.lines source).zipIdx.map fun p => (p.2, p.1)) = _
  rw [← map_snd_numbered (Text.lines source) 0] at allOk
  rw [readLines_of_ok path s _ allOk, map_snd_numbered]

/-- A text stops at its first line that fails, with that line's number, counted from one, its
text and its error. -/
theorem parse_of_error (s : Scope) (path source : String) (pre : List String) (raw : String)
    (post : List String) (e : Error) (split : Text.lines source = pre ++ raw :: post)
    (allOk : ∀ r ∈ s.results pre, r.isOk) (fails : (s.after pre).read raw = .error e) :
    s.parse path source = .error { file := path, line := pre.length + 1, raw, error := e } := by
  show s.readLines path ((Text.lines source).zipIdx.map fun p => (p.2, p.1)) = _
  rw [split, List.zipIdx_append, List.zipIdx_cons, List.map_append, List.map_cons, Nat.zero_add]
  rw [← map_snd_numbered pre 0] at allOk fails
  exact readLines_of_error path s _ pre.length raw _ e allOk fails

/-- Reading a file line by line from its start. After any lines, the call count is the number
of calls read and the current function is the one defined last, or the file's default function.
A line that gives no command, for an error or for want of one, leaves the scope as it was. A call
is tagged with the function it is read in and the number of calls read before it, across
functions, and no tag is given twice. Reading a whole text is the run of its lines, stopped at
the first line that fails. -/
theorem state_along_lines (file : String) :
    (∀ lines : List String,
      ((init file).after lines).file = file ∧
      ((init file).after lines).calls = ((init file).commandsRead lines).countP Command.isCall ∧
      ((init file).after lines).function =
        (((init file).commandsRead lines).filterMap Command.defines?).getLast?.getD
          (file ++ ".__DEFAULT") ∧
      (((init file).commandsRead lines).filterMap Command.returnTag?).Nodup) ∧
    (∀ (pre : List String) (line name : String) (args : UInt16) (tag : String),
      (((init file).after pre).step line).1 = .ok (some (.call name args tag)) →
      tag = (((init file).commandsRead pre).filterMap Command.defines?).getLast?.getD
          (file ++ ".__DEFAULT") ++ "$ret." ++
        toString (((init file).commandsRead pre).countP Command.isCall)) ∧
    (∀ (s : Scope) (line : String),
      ((∃ e, (s.step line).1 = .error e) ∨ (s.step line).1 = .ok none) → (s.step line).2 = s) ∧
    (∀ (s : Scope) (path source : String),
      ((∀ r ∈ s.results (Text.lines source), r.isOk) →
        s.parse path source =
          .ok (s.commandsRead (Text.lines source), s.after (Text.lines source))) ∧
      ∀ (pre : List String) (raw : String) (post : List String) (e : Error),
        Text.lines source = pre ++ raw :: post → (∀ r ∈ s.results pre, r.isOk) →
        ((s.after pre).step raw).1 = .error e →
        s.parse path source = .error { file := path, line := pre.length + 1, raw, error := e }) := by
  refine ⟨fun lines => ⟨after_file _ lines, ?calls, ?function, returnTags_nodup _ lines⟩,
    ?tag, ?unchanged, ?parse⟩
  case calls => simp [after_calls, init]
  case function => simp [after_function, init]
  case tag =>
    intro pre line name args tag reading
    rw [step_fst] at reading
    simp [read_call_tag reading, after_function, after_calls, init]
  case unchanged =>
    rintro s line (⟨e, failed⟩ | nothing)
    · exact step_unchanged (by rw [failed]; rfl)
    · exact step_unchanged (by rw [nothing]; rfl)
  case parse =>
    intro s path source
    refine ⟨parse_of_ok s path source, ?_⟩
    intro pre raw post e split allOk fails
    rw [step_fst] at fails
    exact parse_of_error s path source pre raw post e split allOk fails

/-- Calls are counted across functions: the first call read in `Main.g` is the second of its
file. -/
theorem call_tag_across_functions :
    (((init "Main").after ["function Main.f 0", "call Math.max 2", "function Main.g 1"]).step
        "call Math.min 2").1 = .ok (some (.call "Math.min" 2 "Main.g$ret.1")) ∧
      "Main.g$ret.1" =
        (((init "Main").commandsRead ["function Main.f 0", "call Math.max 2",
          "function Main.g 1"]).filterMap Command.defines?).getLast?.getD ("Main" ++ ".__DEFAULT") ++
          "$ret." ++ toString (((init "Main").commandsRead ["function Main.f 0", "call Math.max 2",
            "function Main.g 1"]).countP Command.isCall) :=
  ⟨rfl, (state_along_lines "Main").2.1 _ "call Math.min 2" "Math.min" 2 _ rfl⟩

end Scope

end Hack.Vm
