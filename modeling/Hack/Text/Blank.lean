/-! Blank characters (Unicode `White_Space`), and trimming, squeezing and splitting into words by them. -/

set_option autoImplicit false

namespace Hack.Text

/-- A character is blank when it has the Unicode `White_Space` property. -/
def isBlank (c : Char) : Bool :=
  let n := c.toNat
  (0x09 ≤ n && n ≤ 0x0D) || n == 0x20 || n == 0x85 || n == 0xA0 || n == 0x1680 ||
    (0x2000 ≤ n && n ≤ 0x200A) || n == 0x2028 || n == 0x2029 || n == 0x202F ||
    n == 0x205F || n == 0x3000

/-- The characters with blanks removed from both ends. -/
def trimChars (cs : List Char) : List Char :=
  ((cs.dropWhile isBlank).reverse.dropWhile isBlank).reverse

/-- A text with blanks removed from both ends. -/
def trim (text : String) : String :=
  String.ofList (trimChars text.toList)

/-- A text with every blank removed, wherever it stands. -/
def squeeze (text : String) : String :=
  String.ofList (text.toList.filter fun c => !isBlank c)

/-- The maximal blank-free runs of a character list, in order; `word` is the run being read,
reversed. -/
def wordsFrom : List Char → List Char → List String
  | [], word => if word.isEmpty then [] else [String.ofList word.reverse]
  | c :: rest, word =>
    if isBlank c then
      if word.isEmpty then wordsFrom rest [] else String.ofList word.reverse :: wordsFrom rest []
    else wordsFrom rest (c :: word)

/-- The words of a text: its maximal runs of characters that are not blank. -/
def words (text : String) : List String :=
  wordsFrom text.toList []

end Hack.Text
