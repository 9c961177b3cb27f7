import Hack.Text.Style
import Hack.Text.Numeral
/-! Diagnostics: an error on a source line reported with its file, one-based line number and the line
as it was read. -/

set_option autoImplicit false

namespace Hack

open Text

/-- An error pinned to the source line that caused it. -/
structure Located (ε : Type) where
  file : String
  /-- One-based line number. -/
  line : Nat
  raw : String
  error : ε
  deriving Repr

/-- The error of the line with zero-based index `index`. -/
def Located.at {ε : Type} (file : String) (index : Nat) (raw : String) (error : ε) : Located ε :=
  { file, line := index + 1, raw, error }

/-- The header of every error report: a bold red `error`, then the message. -/
def errorLine (message : String) : String :=
  Styled.render [(Style.alarm, "error"), (Style.plain, ": " ++ message)] ++ "\n"

/-- The report of a located error, given its message: the error line, the location, and the
source line in a blue gutter. -/
def Located.report {ε : Type} (loc : Located ε) (message : String) : String :=
  let bar := Styled.render [(Style.plain, "      "), (Style.blue, "|")] ++ "\n"
  errorLine message ++
    Styled.render [(Style.plain, "     "), (Style.blue, "-->"), (Style.plain, " "),
      (Style.underlined, loc.file ++ ":" ++ toString loc.line)] ++ "\n" ++
    bar ++
    Styled.render [(Style.plain, " "), (Style.blue, padLeft 4 ' ' (toString loc.line) ++ " |"),
      (Style.plain, " " ++ loc.raw)] ++ "\n" ++
    bar

end Hack
