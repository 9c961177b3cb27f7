/-! Styled text for terminals, rendered with the fewest escape sequences. -/

set_option autoImplicit false

namespace Hack.Text

/-- The foreground colours in use. -/
inductive Color where
  | red
  | green
  | yellow
  | blue
  deriving DecidableEq, Repr

/-- Bold or dim text. -/
inductive Intensity where
  | bold
  | dim
  deriving DecidableEq, Repr

/-- The attributes of a piece; the default is plain text. -/
structure Style where
  color : Option Color := none
  intensity : Option Intensity := none
  underline : Bool := false
  deriving DecidableEq, Repr

/-- An escape sequence that sets one graphic attribute. -/
def sgr (n : Nat) : String :=
  "\x1b[" ++ toString n ++ "m"

/-- The escape that selects a colour. -/
def Color.code : Color → Nat
  | .red => 31
  | .green => 32
  | .yellow => 33
  | .blue => 34

/-- The escape that selects an intensity. -/
def Intensity.code : Intensity → Nat
  | .bold => 1
  | .dim => 2

namespace Style

def plain : Style := {}
def red : Style := { color := some .red }
def green : Style := { color := some .green }
def yellow : Style := { color := some .yellow }
def blue : Style := { color := some .blue }
def dim : Style := { intensity := some .dim }
def underlined : Style := { underline := true }

/-- Red and bold, the style of a severe mark. -/
def alarm : Style := { color := some .red, intensity := some .bold }

/-- Red and underlined. -/
def redUnderlined : Style := { color := some .red, underline := true }

/-- The escapes that switch from one style to another, attribute by attribute. -/
def shift (old new : Style) : String :=
  let color := if old.color = new.color then "" else
    match new.color with
    | some c => sgr c.code
    | none => sgr 39
  let intensity := if old.intensity = new.intensity then "" else
    match new.intensity with
    | some i => sgr i.code
    | none => sgr 22
  let underline := if old.underline = new.underline then "" else
    if new.underline then sgr 4 else sgr 24
  color ++ intensity ++ underline

end Style

/-- A text in pieces, each with its style. -/
abbrev Styled := List (Style × String)

/-- Renders pieces after a piece in style `current`, closing with a switch to plain. -/
def renderFrom : Style → Styled → String
  | current, [] => Style.shift current .plain
  | current, (style, text) :: rest => Style.shift current style ++ text ++ renderFrom style rest

/-- Renders a styled text with the fewest escapes. -/
def Styled.render (pieces : Styled) : String :=
  renderFrom .plain pieces

end Hack.Text
