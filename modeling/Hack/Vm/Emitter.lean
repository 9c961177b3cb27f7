import Hack.Vm.Code
import Hack.Vm.Error
import Hack.Text.Numeral
/-! Emitting assembly text, with the instruction and comparison counters a whole program shares. -/

set_option autoImplicit false

namespace Hack.Vm

/-- The assembly written so far and the counters of a program. -/
structure Emitter where
  lines : Array String := #[]
  instCount : Nat := 0
  compareCount : Nat := 0
  annotate : Bool := false
  deriving Repr

namespace Emitter

/-- Writes one piece. -/
def emit (e : Emitter) : Piece → Emitter
  | .instr i =>
    let line :=
      if e.annotate then "    " ++ Text.padRight 24 ' ' i.text ++ "// " ++ toString e.instCount
      else "    " ++ i.text
    { e with lines := e.lines.push line, instCount := e.instCount + 1 }
  | .label name => { e with lines := e.lines.push ("(" ++ name ++ ")") }
  | .comment text => { e with lines := e.lines.push ("// " ++ text) }

/-- Writes pieces in order. -/
def emitAll (e : Emitter) (pieces : List Piece) : Emitter :=
  pieces.foldl emit e

/-- Writes the bootstrap code. -/
def bootstrap (e : Emitter) : Emitter :=
  e.emitAll Code.bootstrap

/-- Writes a command; popping into the constant segment is refused and writes nothing. -/
def write (e : Emitter) (cmd : Command) : Except Error Emitter :=
  match cmd with
  | .memory .pop (.constant _) => .error .popConstant
  | _ =>
    let e' := e.emitAll (cmd.lower e.compareCount)
    .ok (if cmd.isComparison then { e' with compareCount := e'.compareCount + 1 } else e')

/-- The text written: the lines joined by line feeds, with a final line feed. -/
def finish (e : Emitter) : String :=
  "\n".intercalate e.lines.toList ++ "\n"

end Emitter

end Hack.Vm
