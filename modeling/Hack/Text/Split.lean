/-! Splitting a list of characters at the first occurrence of a separator. -/

set_option autoImplicit false

namespace Hack.Text

/-- The characters before the first occurrence of a separator, and those after it. -/
def splitAtChar (sep : Char) : List Char → Option (List Char × List Char)
  | [] => none
  | c :: rest =>
    if c = sep then some ([], rest)
    else (splitAtChar sep rest).map fun (before, after) => (c :: before, after)

/-- The position of the first occurrence of a character, if any. -/
def firstIndex (sep : Char) (cs : List Char) : Option Nat :=
  cs.findIdx? (· == sep)

end Hack.Text
