import Hack.Isa.Inst
import Hack.Isa.Symbol
import Hack.Text.Blank
import Hack.Text.Comment
import Hack.Text.Numeral
import Hack.Text.Split
import Hack.Asm.Error
/-! Assembly statements: the code of a line (the text before its comment, blanks removed) is nothing,
`@x`, `(name)` or `dest=comp;jump`. -/

set_option autoImplicit false

namespace Hack.Asm

/-- The operand of a load: a number, or a symbol resolved later. -/
inductive Operand where
  | literal (value : UInt16)
  | symbol (name : String)
  deriving DecidableEq, Repr

/-- One statement of an assembly program. -/
inductive Stmt where
  | load (operand : Operand)
  | compute (dest : Dest) (comp : Comp) (jump : Jump)
  /-- A label and the index of the next word emitted after it. -/
  | label (name : String) (pc : UInt16)
  deriving DecidableEq, Repr

/-- Reads the operand of `@`: a run of digits is a number of at most fifteen bits, otherwise it
must be a symbol. -/
def Operand.parse (text : String) : Except Error Operand :=
  if Text.isDigits text.toList then
    let value := Text.digitsValue 10 text.toList
    if value ≤ addressMax then .ok (.literal value.toUInt16) else .error (.addressOutOfRange text)
  else if isSymbol text then .ok (.symbol text)
  else .error (.invalidAddress text)

/-- Reads `dest=comp;jump`: the destination is what stands before the first `=`, and the rest
splits at its first `;`. -/
def parseCompute (code : List Char) : Except Error Stmt :=
  match Text.firstIndex '=' code, Text.firstIndex ';' code with
  | some eq, some semi =>
    if eq > semi then .error (.misorderedCompute (String.ofList code)) else parseParts
  | _, _ => parseParts
where
  parseParts : Except Error Stmt :=
    let (dest, rest) := (Text.splitAtChar '=' code).getD ([], code)
    let (comp, jump) := (Text.splitAtChar ';' rest).getD (rest, [])
    let destText := String.ofList dest
    let compText := String.ofList comp
    let jumpText := String.ofList jump
    match Dest.ofMnemonic? destText, Comp.ofMnemonic? compText, Jump.ofMnemonic? jumpText with
    | some d, some c, some j => .ok (.compute d c j)
    | _, _, _ => .error (.invalidCombination destText compText jumpText)

/-- The code of a line: the text before its comment with every blank removed. -/
def lineCode (line : String) : List Char :=
  (Text.beforeComment line.toList).filter fun c => !Text.isBlank c

/-- Reads one source line, where `pc` is the index the next emitted word will get. -/
def Stmt.parse (line : String) (pc : UInt16) : Except Error (Option Stmt) :=
  match lineCode line with
  | [] => .ok none
  | '@' :: operand => (Operand.parse (String.ofList operand)).map fun o => some (.load o)
  | '(' :: rest =>
    match rest.reverse with
    | ')' :: name =>
      if isSymbolChars name.reverse then .ok (some (.label (String.ofList name.reverse) pc))
      else .error (.invalidLabel (String.ofList ('(' :: rest)))
    | _ => .error (.invalidLabel (String.ofList ('(' :: rest)))
  | code => (parseCompute code).map some

/-- Whether a statement takes a word of the program: loads and computes do, labels do not. -/
def Stmt.isInst : Stmt → Bool
  | .label .. => false
  | _ => true

end Hack.Asm
