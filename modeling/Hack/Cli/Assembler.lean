import Hack.Cli.Tool
import Hack.Asm.Listing
import Hack.Files.Path
/-! The assembler tool `hkasm [INPUT..] [-o OUT] [-d]`: its inputs (by default `main.asm`)
assembled as one program and the binary text written to OUT, only once assembly succeeds. -/

set_option autoImplicit false

namespace Hack.Cli

open Files

/-- The options of the assembler tool. -/
def assemblerOptions : List OptionSpec :=
  [{ long := "output", short := some 'o', takesValue := true },
   { long := "dump", short := some 'd' }]

/-- The assembler as its argument parser sees it. -/
def assemblerInterface : Interface :=
  { name := "hkasm", version := "0.1.0", about := "Assembler for the Hack computer",
    options := assemblerOptions }

/-- Where the assembler writes: the output option, else the first input with the extension
`hack`. -/
def assemblerOutput (parsed : Parsed) : String :=
  (parsed.value? "output").getD (withExtension ((parsed.inputsOr "main.asm").headD "") "hack")

variable {m : Type → Type} [Monad m] [Host m]

/-- Reads and feeds the inputs in order. -/
def feedInputs : Asm.Session → List String → ToolM m Asm.Session
  | s, [] => pure s
  | s, path :: rest => do
    say ("  < " ++ path)
    let source ← readOrFail path
    match s.feed path source with
    | (s', none) => feedInputs s' rest
    | (_, some e) => failAt e e.error.message

/-- The assembler tool, with any argument parser. -/
def assemblerTool (clap : ArgParser) (args : List String) : ToolM m Unit := do
  let parsed ← parseOrExit clap assemblerInterface args
  say "Hack Assembler"
  say "1. Read Files and Parse Lines"
  let s ← feedInputs {} (parsed.inputsOr "main.asm")
  say "2. Resolve Labels & Variables, Generate Binary"
  let (s, result) := s.assemble
  let words ← match result with
    | .ok words => pure words
    | .error e => failAt e e.error.message
  if parsed.flag "dump" then emit (Asm.listing s.symbols s.lines.toList)
  say ("  > " ++ assemblerOutput parsed ++ " (" ++ toString words.size ++ " words)")
  writeOrFail (assemblerOutput parsed) (Asm.hackText words.toList)

/-- The assembler tool as it runs. -/
def assemblerMain (args : List String) : ToolM m Unit :=
  assemblerTool parseArgs args

end Hack.Cli
