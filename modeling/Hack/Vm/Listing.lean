import Hack.Text.Style
import Hack.Text.Blank
import Hack.Text.Lines
import Hack.Text.Numeral
/-! The dump of generated assembly: trimmed lines, instructions after their word index. -/

set_option autoImplicit false

namespace Hack.Vm

open Text

/-- The rule above and below a dump. -/
def dumpRule : String :=
  "------+--------------------------------------------------------"

/-- The dump line of one assembly line, given the index of the next instruction. -/
def dumpLine (pc : Nat) (line : String) : String × Nat :=
  let text := Text.trim line
  if text.startsWith "//" then ("      | " ++ Styled.render [(Style.dim, text)], pc)
  else if text.startsWith "(" then ("      | " ++ Styled.render [(Style.yellow, text)], pc)
  else (padLeft 5 ' ' (toString pc) ++ " |     " ++ Styled.render [(Style.green, text)], pc + 1)

/-- The dump of an assembly text; each line ends with a line feed. -/
def dump (asm : String) : String :=
  let step := fun (acc : String × Nat) (line : String) =>
    let (out, pc) := dumpLine acc.2 line
    (acc.1 ++ out ++ "\n", pc)
  dumpRule ++ "\n" ++ ((Text.lines asm).foldl step ("", 0)).1 ++ dumpRule ++ "\n"

end Hack.Vm
