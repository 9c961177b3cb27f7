import Hack.Cli.Assembler
import Hack.Cli.Translator
import Hack.Proofs.AsmReference
/-! What the assembler and the translator leave in their directory: a run makes the writes of its
plan in order and stops at the first that fails, for every argument parser. -/

set_option autoImplicit false

namespace Hack.Files

/-- Writes files in order, stopping at the first write that fails: the directory left, and
whether every write was made. -/
def Directory.writeAll (d : Directory) : List (String × String) → Directory × Bool
  | [] => (d, true)
  | (path, content) :: rest =>
    match d.write path content with
    | .ok next => next.writeAll rest
    | .error _ => (d, false)

/-- Reads files in order, each path with its contents; the first that cannot be read stops the
reading with status 1. -/
def Directory.readAll (d : Directory) (paths : List String) :
    Except Nat (List (String × String)) :=
  paths.mapM fun path => ((d.read path).mapError fun _ => 1).map (path, ·)

@[simp] theorem Directory.readAll_nil (d : Directory) : d.readAll [] = .ok [] := rfl

theorem Directory.readAll_cons (d : Directory) (path : String) (rest : List String) :
    d.readAll (path :: rest) =
      match d.read path with
      | .ok source => (d.readAll rest).map ((path, source) :: ·)
      | .error _ => .error 1 := by
  unfold Directory.readAll
  rw [List.mapM_cons]
  cases d.read path with
  | ok source =>
    cases rest.mapM fun path => ((d.read path).mapError fun _ => 1).map (path, ·) <;> rfl
  | error e => rfl

/-- Reading stops only with status 1. -/
theorem Directory.readAll_error {d : Directory} {paths : List String} {status : Nat}
    (failed : d.readAll paths = .error status) : status = 1 := by
  induction paths generalizing status with
  | nil => cases failed
  | cons path rest ih =>
    rw [Directory.readAll_cons] at failed
    cases found : d.read path with
    | error e =>
      simp only [found, Except.error.injEq] at failed
      exact failed.symm
    | ok source =>
      cases tail : d.readAll rest with
      | error e =>
        simp only [found, tail, Except.map, Except.error.injEq] at failed
        rw [← failed]
        exact ih tail
      | ok files => simp [found, tail, Except.map] at failed

end Hack.Files

namespace Hack.Cli

open Files

/-- What a computation of a tool does on the pure host: run from any world whose directory is
`d`, it ends with `result` and leaves the directory `d'`, whatever it prints. -/
def Effect {α : Type} (x : ToolM (StateM World) α) (d : Directory) (result : Except Nat α)
    (d' : Directory) : Prop :=
  ∀ w : World, w.directory = d → (x.run.run w).1 = result ∧ (x.run.run w).2.directory = d'

namespace Effect

variable {α β : Type} {d d₁ d₂ : Directory}

theorem of_pure (a : α) (d : Directory) : Effect (pure a) d (.ok a) d :=
  fun _ start => ⟨rfl, start⟩

theorem of_throw (status : Nat) (d : Directory) :
    Effect (throw status : ToolM (StateM World) α) d (.error status) d :=
  fun _ start => ⟨rfl, start⟩

/-- A computation that succeeds is followed by the rest from the directory it leaves. -/
theorem bind_ok {x : ToolM (StateM World) α} {f : α → ToolM (StateM World) β} {a : α}
    {result : Except Nat β} (first : Effect x d (.ok a) d₁) (rest : Effect (f a) d₁ result d₂) :
    Effect (x >>= f) d result d₂ := by
  intro w start
  obtain ⟨value, directory⟩ := first w start
  rw [ExceptT.run_bind, StateT.run_bind]
  revert value directory
  generalize x.run.run w = step
  obtain ⟨value, w₁⟩ := step
  rintro rfl directory
  exact rest w₁ directory

/-- A computation that stops stops everything after it. -/
theorem bind_error {x : ToolM (StateM World) α} {f : α → ToolM (StateM World) β} {status : Nat}
    (first : Effect x d (.error status) d₁) : Effect (x >>= f) d (.error status) d₁ := by
  intro w start
  obtain ⟨value, directory⟩ := first w start
  rw [ExceptT.run_bind, StateT.run_bind]
  revert value directory
  generalize x.run.run w = step
  obtain ⟨value, w₁⟩ := step
  rintro rfl directory
  exact ⟨rfl, directory⟩

end Effect

/-! ### The host's operations -/

section Operations

variable {α : Type} (d : Directory)

theorem emit_effect (text : String) : Effect (emit text : ToolM (StateM World) Unit) d (.ok ()) d :=
  fun _ start => ⟨rfl, start⟩

theorem say_effect (line : String) : Effect (say line : ToolM (StateM World) Unit) d (.ok ()) d :=
  emit_effect d _

theorem fail_effect (message : String) :
    Effect (fail message : ToolM (StateM World) α) d (.error 1) d :=
  Effect.bind_ok (emit_effect d _) (Effect.of_throw 1 d)

theorem failAt_effect {ε : Type} (loc : Located ε) (message : String) :
    Effect (failAt loc message : ToolM (StateM World) α) d (.error 1) d :=
  Effect.bind_ok (emit_effect d _) (Effect.of_throw 1 d)

/-- A dump printed or not leaves the directory to what follows it. -/
theorem dump_then {dump : Bool} {text : String} {next : Unit → ToolM (StateM World) α}
    {result : Except Nat α} {d' : Directory} (after : Effect (next ()) d result d') :
    Effect (if dump = true then emit text >>= next else next ()) d result d' := by
  cases dump
  · exact after
  · exact Effect.bind_ok (emit_effect d text) after

theorem readFile_effect (path : String) :
    Effect (ExceptT.lift (Host.readFile path) : ToolM (StateM World) _) d (.ok (d.read path)) d := by
  intro w start
  rw [← start]
  exact ⟨rfl, rfl⟩

/-- Reading a file stops with status 1 when the file cannot be read. -/
theorem readOrFail_effect (path : String) :
    Effect (readOrFail path : ToolM (StateM World) String) d
      ((d.read path).mapError fun _ => 1) d := by
  refine Effect.bind_ok (readFile_effect d path) ?_
  cases d.read path with
  | ok text => exact Effect.of_pure text d
  | error e => exact fail_effect d _

theorem writeFile_effect_ok {path content : String} {d' : Directory}
    (written : d.write path content = .ok d') :
    Effect (ExceptT.lift (Host.writeFile path content) : ToolM (StateM World) _) d (.ok (.ok ()))
      d' := by
  intro w start
  subst start
  simp [Host.writeFile, written]
  exact ⟨rfl, rfl⟩

theorem writeFile_effect_error {path content : String} {e : FileError}
    (refused : d.write path content = .error e) :
    Effect (ExceptT.lift (Host.writeFile path content) : ToolM (StateM World) _) d (.ok (.error e))
      d := by
  intro w start
  subst start
  simp [Host.writeFile, refused]
  exact ⟨rfl, rfl⟩

theorem writeOrFail_ok {path content : String} {d' : Directory}
    (written : d.write path content = .ok d') :
    Effect (writeOrFail path content : ToolM (StateM World) Unit) d (.ok ()) d' :=
  Effect.bind_ok (writeFile_effect_ok d written) (Effect.of_pure () d')

/-- A write that fails stops with status 1 and leaves the directory. -/
theorem writeOrFail_error {path content : String} {e : FileError}
    (refused : d.write path content = .error e) :
    Effect (writeOrFail path content : ToolM (StateM World) Unit) d (.error 1) d :=
  Effect.bind_ok (writeFile_effect_error d refused) (fail_effect d _)

theorem parseOrExit_ok {clap : ArgParser} {tool : Interface} {args : List String}
    {parsed : Parsed} (parses : clap tool args = .ok parsed) :
    Effect (parseOrExit clap tool args : ToolM (StateM World) Parsed) d (.ok parsed) d := by
  simp only [parseOrExit, parses]
  exact Effect.of_pure parsed d

/-- A parser's stop ends the run with the stop's status, before anything is read or written. -/
theorem parseOrExit_stop {clap : ArgParser} {tool : Interface} {args : List String} {stop : Stop}
    (stopped : clap tool args = .error stop) :
    Effect (parseOrExit clap tool args : ToolM (StateM World) Parsed) d (.error stop.status) d := by
  cases stop with
  | info text =>
    simp only [parseOrExit, stopped]
    exact Effect.bind_ok (emit_effect d text) (Effect.of_throw 0 d)
  | usage text =>
    simp only [parseOrExit, stopped]
    exact Effect.bind_ok (fun _ start => ⟨rfl, start⟩) (Effect.of_throw 2 d)

/-- Both tools open alike: arguments that parse, then a title and the first step printed, leave
the directory to the rest of the run. -/
theorem opening_then {clap : ArgParser} {tool : Interface} {args : List String} {parsed : Parsed}
    {title first : String} {rest : Parsed → ToolM (StateM World) α} {result : Except Nat α}
    {d' : Directory} (parses : clap tool args = .ok parsed)
    (after : Effect (rest parsed) d result d') :
    Effect (do let parsed ← parseOrExit clap tool args; say title; say first; rest parsed) d
      result d' :=
  Effect.bind_ok (parseOrExit_ok d parses) <|
    Effect.bind_ok (say_effect d title) <| Effect.bind_ok (say_effect d first) after

end Operations

/-! ### Reading the inputs -/

/-- The translator reads its inputs in order into units; it stops at the first it cannot read. -/
theorem readUnits_effect (d : Directory) (paths : List String) :
    Effect (readUnits paths : ToolM (StateM World) _) d
      ((d.readAll paths).map fun files => files.map fun file => sourceUnit file.1 file.2)
      d := by
  induction paths with
  | nil => exact Effect.of_pure [] d
  | cons path rest ih =>
    have read := readOrFail_effect d path
    refine Effect.bind_ok (say_effect d _) ?_
    rw [Directory.readAll_cons]
    cases found : d.read path with
    | error e =>
      rw [found] at read
      exact Effect.bind_error read
    | ok source =>
      rw [found] at read
      refine Effect.bind_ok read ?_
      cases tail : d.readAll rest with
      | error status =>
        rw [tail] at ih
        exact Effect.bind_error ih
      | ok files =>
        rw [tail] at ih
        exact Effect.bind_ok ih (Effect.of_pure _ d)

/-- The assembler reads and feeds its inputs in order; it stops at the first it cannot read or
that does not feed. -/
theorem feedInputs_effect (d : Directory) (paths : List String) : ∀ s : Asm.Session,
    Effect (feedInputs s paths : ToolM (StateM World) _) d
      (match d.readAll paths with
        | .ok files =>
          match s.feedFiles files with
          | (next, none) => .ok next
          | (_, some _) => .error 1
        | .error _ => .error 1) d := by
  induction paths with
  | nil => exact fun s => Effect.of_pure s d
  | cons path rest ih =>
    intro s
    have read := readOrFail_effect d path
    refine Effect.bind_ok (say_effect d _) ?_
    rw [Directory.readAll_cons]
    cases found : d.read path with
    | error e =>
      rw [found] at read
      exact Effect.bind_error read
    | ok source =>
      rw [found] at read
      refine Effect.bind_ok read ?_
      rcases fed : s.feed path source with ⟨next, issue⟩
      -- feeding the first file decides whether the rest is fed at all
      cases issue with
      | none =>
        have feeds : ∀ files, s.feedFiles ((path, source) :: files) = next.feedFiles files := by
          intro files
          simp only [Asm.Session.feedFiles, fed]
        have continued := ih next
        cases tail : d.readAll rest with
        | error status =>
          rw [tail] at continued
          exact continued
        | ok files =>
          rw [tail] at continued
          simp only [Except.map, feeds]
          exact continued
      | some e =>
        have feeds : ∀ files, s.feedFiles ((path, source) :: files) = (next, some e) := by
          intro files
          simp only [Asm.Session.feedFiles, fed]
        have fails := failAt_effect (α := Asm.Session) d e e.error.message
        cases tail : d.readAll rest with
        | error status => exact fails
        | ok files =>
          simp only [Except.map, feeds]
          exact fails

/-! ### The tools' plans -/

/-- The writes the assembler makes from the directory `d`: the binary text of its inputs, read in
order and assembled as one program, to its output path. Or the status it stops with before
writing: the parser's, or 1 when an input cannot be read or the program does not assemble. -/
def assemblerPlan (clap : ArgParser) (d : Directory) (args : List String) :
    Except Nat (List (String × String)) :=
  match clap assemblerInterface args with
  | .error stop => .error stop.status
  | .ok parsed =>
    match d.readAll (parsed.inputsOr "main.asm") with
    | .error _ => .error 1
    | .ok files =>
      match Asm.assembleFiles files with
      | .error _ => .error 1
      | .ok words => .ok [(assemblerOutput parsed, Asm.hackText words)]

/-- The writes the translator makes from the directory `d`: the translated text of its inputs to
its output path, then, with `--hack`, the binary text of assembling that text to the output path
with the extension `hack`. Or the status it stops with before writing, as for the assembler. -/
def translatorPlan (clap : ArgParser) (d : Directory) (args : List String) :
    Except Nat (List (String × String)) :=
  match clap translatorInterface args with
  | .error stop => .error stop.status
  | .ok parsed =>
    match d.readAll (parsed.inputsOr "main.vm") with
    | .error _ => .error 1
    | .ok files =>
      match Vm.translate (files.map fun file => sourceUnit file.1 file.2)
          (translatorSettings parsed) with
      | .error _ => .error 1
      | .ok asm =>
        if parsed.flag "hack" then
          match Asm.assemble (((parsed.inputsOr "main.vm").headD "") ++ " (generated)") asm with
          | .error _ => .error 1
          | .ok words =>
            .ok [(translatorOutput parsed, asm),
              (withExtension (translatorOutput parsed) "hack", Asm.hackText words.toList)]
        else .ok [(translatorOutput parsed, asm)]

/-- How a run that makes writes in order ends: with 0 when all are made, and with 1 at the first
that fails. -/
def writeResult (d : Directory) (writes : List (String × String)) : Except Nat Unit :=
  if (d.writeAll writes).2 then .ok () else .error 1

/-- A run follows a plan: one that stops before writing ends with its status and leaves the
directory; one with writes makes them in order and stops at the first that fails. -/
def Follows (x : ToolM (StateM World) Unit) (d : Directory) :
    Except Nat (List (String × String)) → Prop
  | .error status => Effect x d (.error status) d
  | .ok writes => Effect x d (writeResult d writes) (d.writeAll writes).1

theorem write_effect (d : Directory) (path content : String) :
    Effect (writeOrFail path content : ToolM (StateM World) Unit) d
      (writeResult d [(path, content)]) (d.writeAll [(path, content)]).1 := by
  cases written : d.write path content with
  | ok next =>
    simp only [writeResult, Directory.writeAll, written]
    exact writeOrFail_ok d written
  | error e =>
    simp only [writeResult, Directory.writeAll, written]
    exact writeOrFail_error d written

/-- A write followed by more writes: the rest runs from the directory the write made. -/
theorem write_then {d : Directory} {path content : String}
    {next : Unit → ToolM (StateM World) Unit} {writes : List (String × String)}
    (after : ∀ made, d.write path content = .ok made →
      Effect (next ()) made (writeResult made writes) (made.writeAll writes).1) :
    Effect (writeOrFail path content >>= next) d (writeResult d ((path, content) :: writes))
      (d.writeAll ((path, content) :: writes)).1 := by
  cases written : d.write path content with
  | ok made =>
    have rest := after made written
    simp only [writeResult] at rest
    simp only [writeResult, Directory.writeAll, written]
    exact Effect.bind_ok (writeOrFail_ok d written) rest
  | error e =>
    simp only [writeResult, Directory.writeAll, written]
    exact Effect.bind_error (writeOrFail_error d written)

/-- The assembler makes the writes of its plan and nothing else, whatever its parser. -/
theorem assemblerTool_follows (clap : ArgParser) (args : List String) (d : Directory) :
    Follows (assemblerTool clap args) d (assemblerPlan clap d args) := by
  unfold assemblerTool
  cases parse : clap assemblerInterface args with
  | error stop =>
    have plan : assemblerPlan clap d args = .error stop.status := by
      simp only [assemblerPlan, parse]
    rw [plan]
    exact Effect.bind_error (parseOrExit_stop d parse)
  | ok parsed =>
    have feed := feedInputs_effect d (parsed.inputsOr "main.asm") {}
    cases read : d.readAll (parsed.inputsOr "main.asm") with
    | error status =>
      have plan : assemblerPlan clap d args = .error 1 := by
        simp only [assemblerPlan, parse, read]
      simp only [read] at feed
      rw [plan]
      exact opening_then d parse <| Effect.bind_error feed
    | ok files =>
      rcases fed : ({} : Asm.Session).feedFiles files with ⟨next, issue⟩
      simp only [read, fed] at feed
      cases issue with
      | some e =>
        have plan : assemblerPlan clap d args = .error 1 := by
          simp only [assemblerPlan, parse, read, Asm.assembleFiles, fed]
        rw [plan]
        exact opening_then d parse <| Effect.bind_error feed
      | none =>
        rcases assembled : next.assemble with ⟨final, result⟩
        cases result with
        | error e =>
          have plan : assemblerPlan clap d args = .error 1 := by
            simp only [assemblerPlan, parse, read, Asm.assembleFiles, fed, assembled, Except.map]
          rw [plan]
          refine opening_then d parse <|
            Effect.bind_ok feed <| Effect.bind_ok (say_effect d _) ?_
          rw [assembled]
          exact Effect.bind_error (failAt_effect d e _)
        | ok words =>
          have plan : assemblerPlan clap d args =
              .ok [(assemblerOutput parsed, Asm.hackText words.toList)] := by
            simp only [assemblerPlan, parse, read, Asm.assembleFiles, fed, assembled, Except.map]
          rw [plan]
          refine opening_then d parse <| Effect.bind_ok feed <| Effect.bind_ok (say_effect d _) ?_
          rw [assembled]
          exact Effect.bind_ok (Effect.of_pure words d) <|
            dump_then d (Effect.bind_ok (say_effect d _) (write_effect d _ _))

/-- The translator makes the writes of its plan and nothing else, whatever its parser. -/
theorem translatorTool_follows (clap : ArgParser) (args : List String) (d : Directory) :
    Follows (translatorTool clap args) d (translatorPlan clap d args) := by
  unfold translatorTool
  cases parse : clap translatorInterface args with
  | error stop =>
    have plan : translatorPlan clap d args = .error stop.status := by
      simp only [translatorPlan, parse]
    rw [plan]
    exact Effect.bind_error (parseOrExit_stop d parse)
  | ok parsed =>
    have units := readUnits_effect d (parsed.inputsOr "main.vm")
    cases read : d.readAll (parsed.inputsOr "main.vm") with
    | error status =>
      have plan : translatorPlan clap d args = .error 1 := by
        simp only [translatorPlan, parse, read]
      simp only [read, Except.map, Directory.readAll_error read] at units
      rw [plan]
      exact opening_then d parse <| Effect.bind_error units
    | ok files =>
      simp only [read, Except.map] at units
      cases translated : Vm.translate (files.map fun file => sourceUnit file.1 file.2)
          (translatorSettings parsed) with
      | error e =>
        have plan : translatorPlan clap d args = .error 1 := by
          simp only [translatorPlan, parse, read, translated]
        rw [plan]
        refine opening_then d parse <|
          Effect.bind_ok units <| Effect.bind_ok (say_effect d _) ?_
        rw [translated]
        exact Effect.bind_error (failAt_effect d e _)
      | ok asm =>
        cases hack : parsed.flag "hack" with
        | false =>
          have plan : translatorPlan clap d args = .ok [(translatorOutput parsed, asm)] := by
            simp only [translatorPlan, parse, read, translated, hack, Bool.false_eq_true,
              if_false]
          rw [plan]
          refine opening_then d parse <| Effect.bind_ok units <| Effect.bind_ok (say_effect d _) ?_
          rw [translated]
          refine Effect.bind_ok (Effect.of_pure asm d) (dump_then d ?_)
          rw [hack]
          exact Effect.bind_ok (Effect.of_pure none d) <| Effect.bind_ok (say_effect d _) <|
            write_then fun made _ => Effect.of_pure () made
        | true =>
          cases assembled :
              Asm.assemble (((parsed.inputsOr "main.vm").headD "") ++ " (generated)") asm with
          | error e =>
            have plan : translatorPlan clap d args = .error 1 := by
              simp only [translatorPlan, parse, read, translated, hack, if_true, assembled]
            rw [plan]
            refine opening_then d parse <|
              Effect.bind_ok units <| Effect.bind_ok (say_effect d _) ?_
            rw [translated]
            refine Effect.bind_ok (Effect.of_pure asm d) (dump_then d ?_)
            rw [hack]
            refine Effect.bind_ok (say_effect d _) ?_
            rw [assembled]
            exact Effect.bind_error (failAt_effect d e _)
          | ok words =>
            have plan : translatorPlan clap d args = .ok [(translatorOutput parsed, asm),
                (withExtension (translatorOutput parsed) "hack", Asm.hackText words.toList)] := by
              simp only [translatorPlan, parse, read, translated, hack, if_true, assembled]
            rw [plan]
            refine opening_then d parse <|
              Effect.bind_ok units <| Effect.bind_ok (say_effect d _) ?_
            rw [translated]
            refine Effect.bind_ok (Effect.of_pure asm d) (dump_then d ?_)
            rw [hack]
            refine Effect.bind_ok (say_effect d _) ?_
            rw [assembled]
            -- the assembly is written first, the binary only after it
            exact Effect.bind_ok (Effect.of_pure (some words) d) <|
              Effect.bind_ok (say_effect d _) <|
              write_then fun made _ => Effect.bind_ok (say_effect made _) (write_effect made _ _)

/-! ### Exit statuses -/

/-- A tool's run on the pure host: its exit status and the world it leaves. -/
def runOn (tool : ToolM (StateM World) Unit) (w : World) : Nat × World :=
  (exitStatus tool).run w

/-- The status of a run that ends with `result`. -/
def statusOf : Except Nat Unit → Nat
  | .ok () => 0
  | .error status => status

theorem exitStatus_effect {x : ToolM (StateM World) Unit} {d d' : Directory}
    {result : Except Nat Unit} (effect : Effect x d result d') (w : World)
    (start : w.directory = d) :
    (runOn x w).1 = statusOf result ∧ (runOn x w).2.directory = d' := by
  obtain ⟨ended, directory⟩ := effect w start
  unfold runOn exitStatus
  rw [StateT.run_bind]
  revert ended directory
  generalize x.run.run w = step
  obtain ⟨ended, w'⟩ := step
  rintro rfl directory
  cases ended <;> exact ⟨rfl, directory⟩

/-- A run that stops before writing ends with its plan's status and the directory as it was. -/
theorem exitStatus_stopped {x : ToolM (StateM World) Unit} {d : Directory} {status : Nat}
    (follows : Follows x d (.error status)) (w : World) (start : w.directory = d) :
    (runOn x w).1 = status ∧ (runOn x w).2.directory = d :=
  exitStatus_effect follows w start

/-- A run with writes ends with 0 or 1 as they are all made or not, and the directory they
leave. -/
theorem exitStatus_planned {x : ToolM (StateM World) Unit} {d : Directory}
    {writes : List (String × String)} (follows : Follows x d (.ok writes)) (w : World)
    (start : w.directory = d) :
    (runOn x w).1 = (if (d.writeAll writes).2 then 0 else 1) ∧
      (runOn x w).2.directory = (d.writeAll writes).1 := by
  obtain ⟨ended, directory⟩ := exitStatus_effect follows w start
  refine ⟨?_, directory⟩
  rw [ended, writeResult]
  split <;> rfl

/-- Only a help or version text stops a tool with status 0. -/
theorem Stop.info_of_status {stop : Stop} (zero : stop.status = 0) : ∃ text, stop = .info text := by
  cases stop with
  | info text => exact ⟨text, rfl⟩
  | usage text => cases zero

/-- The assembler stops with 0 before writing only when its parser shows a text: everything
after the arguments stops with 1. -/
theorem assemblerPlan_zero {clap : ArgParser} {d : Directory} {args : List String}
    (stopped : assemblerPlan clap d args = .error 0) :
    ∃ text, clap assemblerInterface args = .error (.info text) := by
  unfold assemblerPlan at stopped
  split at stopped
  case h_1 stop parse =>
    obtain ⟨text, rfl⟩ := Stop.info_of_status (Except.error.inj stopped)
    exact ⟨text, parse⟩
  case h_2 =>
    split at stopped
    · cases stopped
    · split at stopped <;> cases stopped

/-- The translator stops with 0 before writing only when its parser shows a text. -/
theorem translatorPlan_zero {clap : ArgParser} {d : Directory} {args : List String}
    (stopped : translatorPlan clap d args = .error 0) :
    ∃ text, clap translatorInterface args = .error (.info text) := by
  unfold translatorPlan at stopped
  split at stopped
  case h_1 stop parse =>
    obtain ⟨text, rfl⟩ := Stop.info_of_status (Except.error.inj stopped)
    exact ⟨text, parse⟩
  case h_2 =>
    split at stopped
    · cases stopped
    · split at stopped
      · cases stopped
      · split at stopped
        · split at stopped <;> cases stopped
        · cases stopped

/-- The assembler plans one write. -/
theorem assemblerPlan_single {clap : ArgParser} {d : Directory} {args : List String}
    {writes : List (String × String)} (planned : assemblerPlan clap d args = .ok writes) :
    ∃ output binary, writes = [(output, binary)] := by
  unfold assemblerPlan at planned
  split at planned
  · cases planned
  · split at planned
    · cases planned
    · split at planned
      · cases planned
      · cases planned
        exact ⟨_, _, rfl⟩

/-- The translator plans the assembly, and with `--hack` the binary after it. -/
theorem translatorPlan_shape {clap : ArgParser} {d : Directory} {args : List String}
    {writes : List (String × String)} (planned : translatorPlan clap d args = .ok writes) :
    ∃ output asm, writes = [(output, asm)] ∨ ∃ hack binary, writes = [(output, asm), (hack, binary)] := by
  unfold translatorPlan at planned
  split at planned
  · cases planned
  · split at planned
    · cases planned
    · split at planned
      · cases planned
      · split at planned
        · split at planned
          · cases planned
          · cases planned
            exact ⟨_, _, Or.inr ⟨_, _, rfl⟩⟩
        · cases planned
          exact ⟨_, _, Or.inl rfl⟩

/-! ### What a run leaves -/

/-- A run of the assembler that fails leaves the directory as it was. One that ends with 0 has
either stopped at a help or version text, leaving the directory as it was, or made the one write
of its plan. -/
theorem assembler_run_output (clap : ArgParser) (args : List String) (w : World) :
    ((runOn (assemblerTool clap args) w).1 = 1 →
        (runOn (assemblerTool clap args) w).2.directory = w.directory) ∧
      ((runOn (assemblerTool clap args) w).1 = 0 →
        ((∃ text, clap assemblerInterface args = .error (.info text)) ∧
          (runOn (assemblerTool clap args) w).2.directory = w.directory) ∨
        ∃ output binary, assemblerPlan clap w.directory args = .ok [(output, binary)] ∧
          w.directory.write output binary = .ok (runOn (assemblerTool clap args) w).2.directory) := by
  have follows := assemblerTool_follows clap args w.directory
  cases planned : assemblerPlan clap w.directory args with
  | error status =>
    rw [planned] at follows
    obtain ⟨ended, directory⟩ := exitStatus_stopped follows w rfl
    refine ⟨fun _ => directory, fun zero => Or.inl ⟨?_, directory⟩⟩
    rw [ended] at zero
    rw [zero] at planned
    exact assemblerPlan_zero planned
  | ok writes =>
    obtain ⟨output, binary, rfl⟩ := assemblerPlan_single planned
    rw [planned] at follows
    obtain ⟨status, directory⟩ := exitStatus_planned follows w rfl
    cases written : w.directory.write output binary with
    | ok made =>
      simp only [Directory.writeAll, written, if_true] at status directory
      refine ⟨fun one => ?_, fun _ => Or.inr ⟨output, binary, rfl, ?_⟩⟩
      · rw [status] at one
        cases one
      · rw [directory, written]
    | error e =>
      simp only [Directory.writeAll, written, Bool.false_eq_true, if_false] at status directory
      refine ⟨fun _ => directory, fun zero => ?_⟩
      rw [status] at zero
      cases zero

/-- A run of the translator that fails leaves the directory as it was, unless it wrote the
assembly and then failed to write the binary. One that ends with 0 has either stopped at a help or
version text, leaving the directory as it was, or made all the writes of its plan. -/
theorem translator_run_output (clap : ArgParser) (args : List String) (w : World) :
    ((runOn (translatorTool clap args) w).1 = 1 →
        (runOn (translatorTool clap args) w).2.directory = w.directory ∨
        ∃ output asm hack binary e,
          translatorPlan clap w.directory args = .ok [(output, asm), (hack, binary)] ∧
          w.directory.write output asm = .ok (runOn (translatorTool clap args) w).2.directory ∧
          (runOn (translatorTool clap args) w).2.directory.write hack binary = .error e) ∧
      ((runOn (translatorTool clap args) w).1 = 0 →
        ((∃ text, clap translatorInterface args = .error (.info text)) ∧
          (runOn (translatorTool clap args) w).2.directory = w.directory) ∨
        ∃ writes, translatorPlan clap w.directory args = .ok writes ∧
          w.directory.writeAll writes = ((runOn (translatorTool clap args) w).2.directory, true)) := by
  have follows := translatorTool_follows clap args w.directory
  cases planned : translatorPlan clap w.directory args with
  | error status =>
    rw [planned] at follows
    obtain ⟨ended, directory⟩ := exitStatus_stopped follows w rfl
    refine ⟨fun _ => Or.inl directory, fun zero => Or.inl ⟨?_, directory⟩⟩
    rw [ended] at zero
    rw [zero] at planned
    exact translatorPlan_zero planned
  | ok writes =>
    rw [planned] at follows
    obtain ⟨status, directory⟩ := exitStatus_planned follows w rfl
    -- a run with writes ends with 0 or 1
    have notZero : (runOn (translatorTool clap args) w).1 = 1 →
        ¬ (runOn (translatorTool clap args) w).1 = 0 :=
      fun one zero => by rw [one] at zero; cases zero
    obtain ⟨output, asm, single | ⟨hack, binary, double⟩⟩ := translatorPlan_shape planned
    · subst single
      cases written : w.directory.write output asm with
      | ok made =>
        simp only [Directory.writeAll, written, if_true] at status directory
        refine ⟨fun one => absurd status (notZero one), fun _ => Or.inr ⟨_, rfl, ?_⟩⟩
        simp only [Directory.writeAll, written, directory]
      | error e =>
        simp only [Directory.writeAll, written, Bool.false_eq_true, if_false] at status directory
        exact ⟨fun _ => Or.inl directory, fun zero => absurd zero (notZero status)⟩
    · subst double
      cases written : w.directory.write output asm with
      | error e =>
        simp only [Directory.writeAll, written, Bool.false_eq_true, if_false] at status directory
        exact ⟨fun _ => Or.inl directory, fun zero => absurd zero (notZero status)⟩
      | ok made =>
        cases second : made.write hack binary with
        | ok final =>
          simp only [Directory.writeAll, written, second, if_true] at status directory
          refine ⟨fun one => absurd status (notZero one), fun _ => Or.inr ⟨_, rfl, ?_⟩⟩
          simp only [Directory.writeAll, written, second, directory]
        | error e =>
          -- the assembly is written and the binary is not: the run fails with it in place
          simp only [Directory.writeAll, written, second, Bool.false_eq_true, if_false]
            at status directory
          refine ⟨fun _ => Or.inr ⟨output, asm, hack, binary, e, rfl, ?_, ?_⟩,
            fun zero => absurd zero (notZero status)⟩
          · rw [directory, written]
          · rw [directory, second]

/-- Both tools write only at the end of a run, whatever the argument parser does. A failed run of
the assembler leaves the directory as it was; one that ends with 0 has stopped at a help or version
text with the directory as it was, or written the binary text of its inputs to its output. A
failed run of the translator leaves the directory as it was unless it wrote the assembly and then
failed to write the binary; one that ends with 0 has stopped at a help or version text with the
directory as it was, or written the assembly and, with `--hack`, the binary. -/
theorem tool_run_output (clap : ArgParser) (args : List String) (w : World) :
    (((runOn (assemblerTool clap args) w).1 = 1 →
        (runOn (assemblerTool clap args) w).2.directory = w.directory) ∧
      ((runOn (assemblerTool clap args) w).1 = 0 →
        ((∃ text, clap assemblerInterface args = .error (.info text)) ∧
          (runOn (assemblerTool clap args) w).2.directory = w.directory) ∨
        ∃ output binary, assemblerPlan clap w.directory args = .ok [(output, binary)] ∧
          w.directory.write output binary = .ok (runOn (assemblerTool clap args) w).2.directory)) ∧
    (((runOn (translatorTool clap args) w).1 = 1 →
        (runOn (translatorTool clap args) w).2.directory = w.directory ∨
        ∃ output asm hack binary e,
          translatorPlan clap w.directory args = .ok [(output, asm), (hack, binary)] ∧
          w.directory.write output asm = .ok (runOn (translatorTool clap args) w).2.directory ∧
          (runOn (translatorTool clap args) w).2.directory.write hack binary = .error e) ∧
      ((runOn (translatorTool clap args) w).1 = 0 →
        ((∃ text, clap translatorInterface args = .error (.info text)) ∧
          (runOn (translatorTool clap args) w).2.directory = w.directory) ∨
        ∃ writes, translatorPlan clap w.directory args = .ok writes ∧
          w.directory.writeAll writes = ((runOn (translatorTool clap args) w).2.directory, true))) :=
  ⟨assembler_run_output clap args w, translator_run_output clap args w⟩

end Hack.Cli
