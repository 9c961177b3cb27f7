/-! Lines of a text: cut at each line feed, a carriage return just before one dropped, and no empty
last line. -/

set_option autoImplicit false

namespace Hack.Text

/-- The line ending at a line feed, given reversed: without a carriage return just before the
feed. -/
def closeLine : List Char → String
  | '\r' :: rest => String.ofList rest.reverse
  | line => String.ofList line.reverse

/-- Reads the characters left, with the current line reversed in `line` and the finished lines
reversed in `done`. -/
def linesFrom : List Char → List Char → List String → List String
  | [], line, done => (if line.isEmpty then done else String.ofList line.reverse :: done).reverse
  | '\n' :: rest, line, done => linesFrom rest [] (closeLine line :: done)
  | c :: rest, line, done => linesFrom rest (c :: line) done

/-- The lines of a text. -/
def lines (text : String) : List String :=
  linesFrom text.toList [] []

end Hack.Text
