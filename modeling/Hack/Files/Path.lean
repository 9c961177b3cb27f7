/-! Paths: components separated by `/`, the file name, its stem and the path with another extension. -/

set_option autoImplicit false

namespace Hack.Files

/-- The components that name something: neither empty nor `.`. -/
def components (path : String) : List String :=
  (path.splitOn "/").filter fun c => !c.isEmpty && c != "."

/-- A path in canonical form: its components joined by `/`. -/
def normalize (path : String) : String :=
  "/".intercalate (components path)

/-- Drops separators and `.` components from the end of a reversed path. -/
def dropTail : List Char → List Char
  | '/' :: rest => dropTail rest
  | '.' :: '/' :: rest => dropTail rest
  | ['.'] => []
  | cs => cs

/-- The characters of a path with trailing separators and `.` components removed, so that it ends
with its last component. -/
def trimTail (cs : List Char) : List Char :=
  (dropTail cs.reverse).reverse

/-- The last component of a list of characters, after trimming its tail. -/
def lastComponent (cs : List Char) : List Char :=
  ((trimTail cs).reverse.takeWhile (· != '/')).reverse

/-- The file name of a path, if it has one. -/
def fileName? (path : String) : Option String :=
  let name := lastComponent path.toList
  if name.isEmpty || name == ['.', '.'] then none else some (String.ofList name)

/-- The stem of a file name: up to its last dot, unless that dot comes first. -/
def stemOf (name : List Char) : List Char :=
  match (name.reverse.dropWhile (· != '.')) with
  | [] => name
  | _ :: before => if before.reverse.isEmpty then name else before.reverse

/-- The stem of a path's file name, if it has one. -/
def fileStem? (path : String) : Option String :=
  (fileName? path).map fun name => String.ofList (stemOf name.toList)

/-- The path with its extension replaced: cut after the stem, then `.` and the extension. -/
def withExtension (path ext : String) : String :=
  match fileName? path with
  | none => path
  | some name =>
    let head := trimTail path.toList
    let stem := stemOf name.toList
    let kept := head.take (head.length - name.length + stem.length)
    String.ofList kept ++ (if ext.isEmpty then "" else "." ++ ext)

end Hack.Files
