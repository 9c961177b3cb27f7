import Hack.Cli.Tool
import Hack.Machine.Rom
import Hack.Machine.Setup
import Hack.Machine.Trace
import Hack.Text.Quoted
/-! The emulator tool `hkemu [INPUT] [-t TMAX] [-s ADDR=VALUE].. [-d CFG] [-a]`: the binary text
INPUT (by default `main.hack`) loaded, the presets written, and the machine run and traced until it
terminates or TMAX steps (without `-t`, as many as a 64-bit counter holds). -/

set_option autoImplicit false

namespace Hack.Cli

open Files Text

/-- The options of the emulator tool. -/
def emulatorOptions : List OptionSpec :=
  [{ long := "tmax", short := some 't', takesValue := true },
   { long := "set", short := some 's', takesValue := true },
   { long := "dump-cfg", short := some 'd', takesValue := true },
   { long := "dump-all", short := some 'a' }]

/-- The emulator as its argument parser sees it. -/
def emulatorInterface : Interface :=
  { name := "Hack Emulator", version := "v1.0.0", about := "Emulator for the Hack computer",
    options := emulatorOptions }

/-- The step limit without `-t`: the largest 64-bit count. -/
def unboundedSteps : Nat := UInt64.size - 1

/-- The frame around the input's name. -/
def emulatorRule : String := "+-------------------------------------------------+"

variable {m : Type → Type} [Monad m] [Host m]

/-- Reads the presets, stopping at the first that does not parse. -/
def readPresets : List String → ToolM m (List (UInt16 × UInt16))
  | [] => pure []
  | text :: rest => do
    match parseSetup text with
    | .ok p => return p :: (← readPresets rest)
    | .error e => fail e.message

/-- Refuses a step limit that is not a 64-bit count, as an argument error. -/
def badStepLimit {α : Type} (text : String) : ToolM m α := do
  ExceptT.lift (Host.printError ("error: invalid value '" ++ text ++ "' for '--tmax <TMAX>'\n"))
  throw 2

/-- The emulator tool, with any argument parser. -/
def emulatorTool (clap : ArgParser) (args : List String) : ToolM m Unit := do
  let parsed ← parseOrExit clap emulatorInterface args
  let input ← match parsed.positionals with
    | [] => pure "main.hack"
    | [path] => pure path
    | _ => do
      ExceptT.lift (Host.printError "error: unexpected argument found\n")
      throw 2
  let tmax ← match parsed.value? "tmax" with
    | none => pure unboundedSteps
    | some text =>
      match Text.readNatural? text.toList with
      | some n => if n < UInt64.size then pure n else badStepLimit text
      | none => badStepLimit text
  say "Hack Emulator"
  say emulatorRule
  say ("| " ++ padRight 47 ' ' input ++ " |")
  say emulatorRule
  let text ← readOrFail input
  let machine ← match (Machine.initial.loadRomText text) with
    | .ok machine => pure machine
    | .error e => fail e.message
  say "[INIT]"
  let config ← match parsed.value? "dump-cfg" with
    | none => pure none
    | some path => do
      let yaml ← readOrFail path
      match DumpConfig.parse yaml with
      | .ok config => pure (some (path, config))
      | .error e => fail ("Invalid dump config: " ++ e.message)
  let presets ← readPresets (parsed.values "set")
  for (addr, value) in presets do
    say (" * Set RAM[" ++ toString addr.toNat ++ "] = " ++ signedDecimal value)
  let machine := presets.foldl (fun mach (addr, value) => mach.set addr value) machine
  let all := parsed.flag "dump-all"
  if all then say " * Dump all"
  match config with
  | some (path, config) => say (" * Dump[" ++ toString config.size ++ "] " ++ quote path)
  | none => pure ()
  let tracer : Tracer := { config := (config.map (·.2)).getD {}, all }
  let (machine, steps, trace) := tracer.run machine tmax
  emit trace
  say "==================================================="
  say ((if machine.isTerminated then "Halted" else "Stopped") ++ " after " ++ toString steps ++
    " steps, PC = " ++ toString machine.pc.toNat)

/-- The emulator tool as it runs. -/
def emulatorMain (args : List String) : ToolM m Unit :=
  emulatorTool parseArgs args

end Hack.Cli
