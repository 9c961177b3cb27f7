/-! Line comments: everything from the first `//` to the end of the line. -/

set_option autoImplicit false

namespace Hack.Text

/-- The characters before the first `//`. -/
def beforeComment : List Char → List Char
  | [] => []
  | '/' :: '/' :: _ => []
  | c :: rest => c :: beforeComment rest

/-- The code of a line: its text before the first `//`. -/
def stripComment (line : String) : String :=
  String.ofList (beforeComment line.toList)

end Hack.Text
