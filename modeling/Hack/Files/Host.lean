import Hack.Files.Directory
/-! Hosts: the four operations a tool needs (read, write, print, print an error), and the pure host,
a state monad over a directory and the text printed. -/

set_option autoImplicit false

namespace Hack.Files

/-- The operations a tool needs from the world it runs in. -/
class Host (m : Type → Type) where
  readFile : String → m (Except FileError String)
  writeFile : String → String → m (Except FileError Unit)
  print : String → m Unit
  printError : String → m Unit

/-- The world of a pure run: the directory and the text printed. -/
structure World where
  directory : Directory
  stdout : String := ""
  stderr : String := ""
  deriving Repr

instance : Host (StateM World) where
  readFile path := do
    return (← get).directory.read path
  writeFile path content := do
    let w ← get
    match w.directory.write path content with
    | .ok d => set { w with directory := d }; return .ok ()
    | .error e => return .error e
  print text := modify fun w => { w with stdout := w.stdout ++ text }
  printError text := modify fun w => { w with stderr := w.stderr ++ text }

end Hack.Files
