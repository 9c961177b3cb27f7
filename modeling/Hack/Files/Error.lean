/-! Why reading or writing a file fails, with the operating system's wording and error number. -/

set_option autoImplicit false

namespace Hack.Files

/-- Why a file cannot be read or written. -/
inductive FileError where
  /-- The path, or a directory on it, does not exist. -/
  | notFound
  /-- A component before the last is a file. -/
  | notDirectory
  /-- The path names a directory. -/
  | isDirectory
  /-- Any other failure, with its description. -/
  | other (description : String)
  deriving DecidableEq, Repr

/-- The description of a file error, as the operating system words it. -/
def FileError.message : FileError → String
  | .notFound => "No such file or directory (os error 2)"
  | .notDirectory => "Not a directory (os error 20)"
  | .isDirectory => "Is a directory (os error 21)"
  | .other description => description

end Hack.Files
