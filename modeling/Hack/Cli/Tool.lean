import Hack.Files.Host
import Hack.Cli.Args
import Hack.Diagnostic
/-! Tools: computations in a host that end with an exit status, 0 when they finish, 1 after an
error they report, and what the argument parser stops them with. -/

set_option autoImplicit false

namespace Hack.Cli

open Files

/-- A tool's computation: it may stop early with an exit status. -/
abbrev ToolM (m : Type → Type) := ExceptT Nat m

variable {m : Type → Type} [Monad m] [Host m]

/-- Prints text. -/
def emit (text : String) : ToolM m Unit :=
  ExceptT.lift (Host.print text)

/-- Prints a line. -/
def say (line : String) : ToolM m Unit :=
  emit (line ++ "\n")

/-- Reports an error and stops with status 1. -/
def fail {α : Type} (message : String) : ToolM m α := do
  emit (errorLine message)
  throw 1

/-- Reports a located error and stops with status 1. -/
def failAt {α ε : Type} (loc : Located ε) (message : String) : ToolM m α := do
  emit (loc.report message)
  throw 1

/-- Reads a file, or reports why not. -/
def readOrFail (path : String) : ToolM m String := do
  match ← ExceptT.lift (Host.readFile path) with
  | .ok text => pure text
  | .error e => fail ("Failed to open file: " ++ path ++ ": " ++ e.message)

/-- Writes a file, or reports why not. -/
def writeOrFail (path content : String) : ToolM m Unit := do
  match ← ExceptT.lift (Host.writeFile path content) with
  | .ok () => pure ()
  | .error e => fail ("Failed to write file: " ++ path ++ ": " ++ e.message)

/-- Sorts the arguments with the parser, or stops as it says: its text printed with status 0, or
its usage error on standard error with status 2. -/
def parseOrExit (clap : ArgParser) (tool : Interface) (args : List String) : ToolM m Parsed :=
  match clap tool args with
  | .ok p => pure p
  | .error (.info text) => do
    emit text
    throw 0
  | .error (.usage text) => do
    ExceptT.lift (Host.printError text)
    throw 2

/-- The exit status of a tool's run. -/
def exitStatus (tool : ToolM m Unit) : m Nat := do
  match ← tool.run with
  | .ok () => pure 0
  | .error status => pure status

end Hack.Cli
