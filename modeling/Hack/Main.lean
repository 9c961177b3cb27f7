import Hack.Cli.Assembler
import Hack.Cli.Translator
import Hack.Cli.Emulator
/-! The command line: one program for the three tools, hosted on the real file system and standard
streams. -/

set_option autoImplicit false

namespace Hack.Main

open Files Cli

/-- The file error of an input-output error. -/
def fileErrorOf (e : IO.Error) : FileError :=
  match e with
  | .noFileOrDirectory .. => .notFound
  | .inappropriateType _ 20 _ => .notDirectory
  | .inappropriateType _ 21 _ => .isDirectory
  | _ => .other (toString e)

/-- The real world as a host. -/
instance : Host IO where
  readFile path := do
    try return .ok (← IO.FS.readFile path) catch e => return .error (fileErrorOf e)
  writeFile path content := do
    if path.isEmpty then return .error .notFound
    try return .ok (← IO.FS.writeFile path content) catch e => return .error (fileErrorOf e)
  print text := do
    let out ← IO.getStdout
    out.putStr text
    out.flush
  printError text := do
    let err ← IO.getStderr
    err.putStr text

/-- Runs the tool the first argument names. -/
def run (args : List String) : IO UInt32 := do
  let status ← match args with
    | "hkasm" :: rest => exitStatus (assemblerMain rest : ToolM IO Unit)
    | "hkvmt" :: rest => exitStatus (translatorMain rest : ToolM IO Unit)
    | "hkemu" :: rest => exitStatus (emulatorMain rest : ToolM IO Unit)
    | _ => do
      (← IO.getStderr).putStrLn "usage: hack (hkasm | hkvmt | hkemu) ARGS"
      pure 2
  return status.toUInt32

end Hack.Main

/-- The entry point. -/
def main (args : List String) : IO UInt32 :=
  Hack.Main.run args
