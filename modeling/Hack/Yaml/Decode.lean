import Hack.Yaml.Reader
import Hack.Text.Quoted
/-! Decoding typed values out of YAML nodes by the core schema, with errors that name the path to the
node. -/

set_option autoImplicit false

namespace Hack.Yaml

/-- Why a document does not decode. -/
inductive DecodeError where
  /-- The text is not YAML. -/
  | malformed (e : SyntaxError)
  /-- The text holds no document. -/
  | endOfStream
  /-- A node that does not fit, with the path to it and its mark. -/
  | mismatch (path : String) (message : String) (mark : Mark)
  deriving Repr

/-- The message of a decoding error. -/
def DecodeError.message : DecodeError → String
  | .malformed e => e.message
  | .endOfStream => "EOF while parsing a value"
  | .mismatch path message mark =>
    (if path == "." then "" else path ++ ": ") ++ message ++ mark.suffix

/-- What a plain scalar resolves to. -/
inductive Scalar where
  | null
  | bool (value : Bool)
  | int (value : Int)
  /-- A floating-point number, with the text it prints as. -/
  | float (shown : String)
  | str (value : String)
  deriving DecidableEq, Repr

/-- The value of digits in a base, if they are all digits of it and there is one at least. -/
def digitsIn (base : Nat) (cs : List Char) : Option Nat :=
  if cs.isEmpty then none
  else cs.foldlM (fun acc c =>
    let d := if '0' ≤ c ∧ c ≤ '9' then c.toNat - '0'.toNat
      else if 'a' ≤ c ∧ c ≤ 'z' then c.toNat - 'a'.toNat + 10
      else if 'A' ≤ c ∧ c ≤ 'Z' then c.toNat - 'A'.toNat + 10
      else 36
    if d < base then some (acc * base + d) else none) 0

/-- Whether characters start with a sign. -/
def startsSigned (cs : List Char) : Bool :=
  cs.head? == some '+' || cs.head? == some '-'

/-- Whether a scalar is two or more decimal digits led by a zero, after an optional sign: such
a scalar is neither an integer nor a float but a string. -/
def zeroLedDigits (cs : List Char) : Bool :=
  let cs := if startsSigned cs then cs.drop 1 else cs
  cs.length > 1 && cs.head? == some '0' && cs.all Char.isDigit

/-- The magnitude of an unsigned integer scalar: a prefixed numeral, or decimal digits that do
not start with a zero unless there is only one. -/
def unsignedValue : List Char → Option Nat
  | '0' :: 'x' :: rest => if startsSigned rest then none else digitsIn 16 rest
  | '0' :: 'o' :: rest => if startsSigned rest then none else digitsIn 8 rest
  | '0' :: 'b' :: rest => if startsSigned rest then none else digitsIn 2 rest
  | cs => if zeroLedDigits cs then none else digitsIn 10 cs

/-- The integer a plain scalar spells, if any. -/
def intValue : List Char → Option Int
  | '+' :: rest => if startsSigned rest then none else (unsignedValue rest).map Int.ofNat
  | '-' :: rest =>
    if startsSigned rest then none else (unsignedValue rest).map fun n => -Int.ofNat n
  | cs => (unsignedValue cs).map Int.ofNat

/-- A decimal numeral with an optional fraction and exponent: its sign, its digits without the
point, and the power of ten of the last digit. -/
def decimalParts (cs : List Char) : Option (Bool × List Char × Int) :=
  let (negative, cs) := match cs with
    | '-' :: rest => (true, rest)
    | '+' :: rest => (false, rest)
    | rest => (false, rest)
  let whole := cs.takeWhile Char.isDigit
  let rest := cs.dropWhile Char.isDigit
  let (frac, rest) := match rest with
    | '.' :: more => (more.takeWhile Char.isDigit, more.dropWhile Char.isDigit)
    | more => ([], more)
  if whole.isEmpty && frac.isEmpty then none
  else
    let exponent : Option Int := match rest with
      | [] => some 0
      | 'e' :: more | 'E' :: more =>
        match more with
        | '-' :: ds => (digitsIn 10 ds).map fun n => -Int.ofNat n
        | '+' :: ds => (digitsIn 10 ds).map Int.ofNat
        | ds => (digitsIn 10 ds).map Int.ofNat
      | _ => none
    exponent.map fun e => (negative, whole ++ frac, e - frac.length)

/-- How a decimal number prints: positional, with at least one digit after the point. -/
def showDecimal (negative : Bool) (digits : List Char) (exponent : Int) : String :=
  let digits := digits.dropWhile (· == '0')
  if digits.isEmpty then (if negative then "-0.0" else "0.0")
  else
    let (intPart, fracPart) :=
      if exponent ≥ 0 then (digits ++ List.replicate exponent.toNat '0', [])
      else
        let k := (-exponent).toNat
        if k ≥ digits.length then (['0'], List.replicate (k - digits.length) '0' ++ digits)
        else (digits.take (digits.length - k), digits.drop (digits.length - k))
    let fracPart := (fracPart.reverse.dropWhile (· == '0')).reverse
    (if negative then "-" else "") ++ String.ofList intPart ++ "." ++
      String.ofList (if fracPart.isEmpty then ['0'] else fracPart)

/-- The floating-point number a plain scalar spells, as it prints, if any. -/
def floatValue (text : String) : Option String :=
  if text == ".inf" || text == ".Inf" || text == ".INF" || text == "+.inf" || text == "+.Inf" ||
      text == "+.INF" then some "inf"
  else if text == "-.inf" || text == "-.Inf" || text == "-.INF" then some "-inf"
  else if text == ".nan" || text == ".NaN" || text == ".NAN" then some "NaN"
  else match text.toList with
    | '+' :: '+' :: _ | '+' :: '-' :: _ => none
    | cs => (decimalParts cs).map fun (negative, digits, exponent) =>
      showDecimal negative digits exponent

/-- Resolves a plain scalar by the core schema. -/
def resolvePlain (text : String) : Scalar :=
  if text == "" || text == "~" || text == "null" || text == "Null" || text == "NULL" then .null
  else if text == "true" || text == "True" || text == "TRUE" then .bool true
  else if text == "false" || text == "False" || text == "FALSE" then .bool false
  else match intValue text.toList with
    | some n => .int n
    | none =>
      match if zeroLedDigits text.toList then none else floatValue text with
      | some shown => .float shown
      | none => .str text

/-- How an integer is named in a message: one past the 64-bit range is read as a 128-bit
integer and says so. -/
def describeInt (n : Int) : String :=
  "integer `" ++ toString n ++ "`" ++
    (if n ≥ (UInt64.size : Int) then " as u128"
      else if n < -((UInt64.size / 2 : Nat) : Int) then " as i128" else "")

/-- How a node is named when it is not what was wanted. -/
def Node.unexpected : Node → String
  | .seq .. => "sequence"
  | .map .. => "map"
  | .scalar text .quoted _ => "string " ++ Text.quote text
  | .scalar text .plain _ =>
    match resolvePlain text with
    | .null => "unit value"
    | .bool b => "boolean `" ++ toString b ++ "`"
    | .int n => describeInt n
    | .float shown => "floating point `" ++ shown ++ "`"
    | .str s => "string " ++ Text.quote s

/-- A node of the wrong kind. -/
def invalidType {α : Type} (path : String) (node : Node) (expected : String) :
    Except DecodeError α :=
  .error (.mismatch path ("invalid type: " ++ node.unexpected ++ ", expected " ++ expected) node.mark)

/-- Whether a node is the empty plain scalar, a value left out. -/
def Node.isAbsent : Node → Bool
  | .scalar "" .plain _ => true
  | _ => false

/-- A sixteen-bit unsigned integer. -/
def Node.toWord (path : String) (node : Node) : Except DecodeError UInt16 :=
  match node with
  | .scalar text .plain mark =>
    match resolvePlain text with
    | .int n =>
      if 0 ≤ n ∧ n < 65536 then .ok n.toNat.toUInt16
      else .error (.mismatch path ("invalid value: " ++ describeInt n ++ ", expected u16") mark)
    | _ => invalidType path node "u16"
  | _ => invalidType path node "u16"

/-- A boolean. -/
def Node.toBool (path : String) (node : Node) : Except DecodeError Bool :=
  match node with
  | .scalar text .plain _ =>
    match resolvePlain text with
    | .bool b => .ok b
    | _ => invalidType path node "a boolean"
  | _ => invalidType path node "a boolean"

/-- The path to a value under a key. -/
def keyPath (path key : String) : String :=
  if path == "." then key else path ++ "." ++ key

/-- The path to an item of a sequence. -/
def itemPath (path : String) (index : Nat) : String :=
  (if path == "." then "" else path) ++ "[" ++ toString index ++ "]"

/-- A sequence of sixteen-bit unsigned integers; a value left out is empty. -/
def Node.toWords (path : String) (node : Node) : Except DecodeError (List UInt16) :=
  match node with
  | .seq items _ => items.zipIdx.mapM fun (item, i) => item.toWord (itemPath path i)
  | _ => if node.isAbsent then .ok [] else invalidType path node "a sequence"

/-- The text of a scalar key, by which paths name the value under it. -/
def Node.keyText : Node → Option String
  | .scalar text _ _ => some text
  | _ => none

/-- Reads a document: a syntax error, or no document at all, fails. -/
def readNode (text : String) : Except DecodeError Node :=
  match readDocument text with
  | .error e => .error (.malformed e)
  | .ok none => .error .endOfStream
  | .ok (some node) => .ok node

end Hack.Yaml
