import Hack.Files.Path
import Hack.Files.Error
/-! A directory tree held in memory, read and written as the operating system does: every component
before the last an existing directory, and a directory never read or written as a file. -/

set_option autoImplicit false

namespace Hack.Files

/-- Files and directories under the working directory. -/
structure Directory where
  files : List (String × String) := []
  /-- Every directory, each parent listed as well; the working directory itself is implied. -/
  dirs : List String := []
  deriving Repr

/-- What a path names. -/
inductive Entry where
  | file (content : String)
  | dir
  | missing

namespace Directory

/-- What the components of a path name; no components is the working directory. -/
def entry (d : Directory) (comps : List String) : Entry :=
  if comps.isEmpty then .dir
  else
    let path := "/".intercalate comps
    match d.files.find? (·.1 == path) with
    | some (_, content) => .file content
    | none => if d.dirs.contains path then .dir else .missing

/-- Checks that every component before the last names a directory. -/
def checkParents (d : Directory) (comps : List String) : Except FileError Unit :=
  (List.range (comps.length - 1)).forM fun i =>
    match d.entry (comps.take (i + 1)) with
    | .dir => .ok ()
    | .file _ => .error .notDirectory
    | .missing => .error .notFound

/-- Reads a file. -/
def read (d : Directory) (path : String) : Except FileError String := do
  if path.isEmpty then throw .notFound
  let comps := components path
  d.checkParents comps
  match d.entry comps with
  | .file content => if path.endsWith "/" then throw .notDirectory else pure content
  | .dir => throw .isDirectory
  | .missing => throw .notFound

/-- Writes a file, creating it or replacing its content. -/
def write (d : Directory) (path content : String) : Except FileError Directory := do
  if path.isEmpty then throw .notFound
  let comps := components path
  d.checkParents comps
  match d.entry comps with
  | .dir => throw .isDirectory
  | .file _ =>
    if path.endsWith "/" then throw .notDirectory
    else
      let key := "/".intercalate comps
      pure { d with files := d.files.map fun f => if f.1 == key then (key, content) else f }
  | .missing =>
    if path.endsWith "/" then throw .isDirectory
    else pure { d with files := d.files ++ [("/".intercalate comps, content)] }

/-- The directories on the way to a path, the path itself included. -/
def ancestors (comps : List String) : List String :=
  (List.range comps.length).map fun i => "/".intercalate (comps.take (i + 1))

/-- Adds a directory and its parents. -/
def addDir (d : Directory) (path : String) : Directory :=
  let new := (ancestors (components path)).filter fun p => !d.dirs.contains p
  { d with dirs := d.dirs ++ new }

/-- Adds a file, creating its parent directories. -/
def addFile (d : Directory) (path content : String) : Directory :=
  let comps := components path
  let d := d.addDir ("/".intercalate comps.dropLast)
  let key := "/".intercalate comps
  { d with files := (d.files.filter (·.1 != key)) ++ [(key, content)] }

end Directory

end Hack.Files
