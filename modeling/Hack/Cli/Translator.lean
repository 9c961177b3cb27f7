import Hack.Cli.Tool
import Hack.Vm.Translate
import Hack.Vm.Listing
import Hack.Asm.Session
import Hack.Files.Path
/-! The VM translator tool `hkvmt [INPUT..] [-o OUT] [--no-bootstrap] [--annotate] [--hack] [-d]`:
its inputs (by default `main.vm`) translated as one program, each unit named by its file's stem,
the assembly written to OUT and, with `--hack`, the binary after it. -/

set_option autoImplicit false

namespace Hack.Cli

open Files

/-- The options of the translator tool. -/
def translatorOptions : List OptionSpec :=
  [{ long := "output", short := some 'o', takesValue := true },
   { long := "no-bootstrap" }, { long := "annotate" }, { long := "hack" },
   { long := "dump", short := some 'd' }]

/-- The translator as its argument parser sees it. -/
def translatorInterface : Interface :=
  { name := "hkvmt", version := "0.1.0", about := "VM translator for the Hack computer",
    options := translatorOptions }

/-- The unit of an input: named by the file's stem. -/
def sourceUnit (path source : String) : Vm.SourceFile :=
  { name := (fileStem? path).getD path, path, source }

/-- The translation options the arguments ask for. -/
def translatorSettings (parsed : Parsed) : Vm.Options :=
  { bootstrap := !parsed.flag "no-bootstrap", annotate := parsed.flag "annotate" }

/-- Where the assembly goes: the output option, else the first input with the extension `asm`. -/
def translatorOutput (parsed : Parsed) : String :=
  (parsed.value? "output").getD (withExtension ((parsed.inputsOr "main.vm").headD "") "asm")

variable {m : Type → Type} [Monad m] [Host m]

/-- Reads the inputs in order as units. -/
def readUnits : List String → ToolM m (List Vm.SourceFile)
  | [] => pure []
  | path :: rest => do
    say ("  < " ++ path)
    let source ← readOrFail path
    return sourceUnit path source :: (← readUnits rest)

/-- The translator tool, with any argument parser. -/
def translatorTool (clap : ArgParser) (args : List String) : ToolM m Unit := do
  let parsed ← parseOrExit clap translatorInterface args
  say "Hack VM Translator"
  say "1. Read Files"
  let units ← readUnits (parsed.inputsOr "main.vm")
  say "2. Parse Commands & Generate Assembly"
  let asm ← match Vm.translate units (translatorSettings parsed) with
    | .ok asm => pure asm
    | .error e => failAt e e.error.message
  if parsed.flag "dump" then emit (Vm.dump asm)
  let words ← if parsed.flag "hack" then do
      say "3. Assemble"
      match Asm.assemble (((parsed.inputsOr "main.vm").headD "") ++ " (generated)") asm with
      | .ok words => pure (some words)
      | .error e => failAt e e.error.message
    else pure none
  say ("  > " ++ translatorOutput parsed)
  writeOrFail (translatorOutput parsed) asm
  match words with
  | some words =>
    let hack := withExtension (translatorOutput parsed) "hack"
    say ("  > " ++ hack ++ " (" ++ toString words.size ++ " words)")
    writeOrFail hack (Asm.hackText words.toList)
  | none => pure ()

/-- The translator tool as it runs. -/
def translatorMain (args : List String) : ToolM m Unit :=
  translatorTool parseArgs args

end Hack.Cli
