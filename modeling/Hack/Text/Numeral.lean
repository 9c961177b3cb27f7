/-! Reading and writing the numerals of the toolchain. -/

set_option autoImplicit false

namespace Hack.Text

/-- A nonempty list of decimal digits. -/
def isDigits (cs : List Char) : Bool :=
  !cs.isEmpty && cs.all Char.isDigit

/-- The value of a list of digits in a base, most significant digit first. -/
def digitsValue (base : Nat) (cs : List Char) : Nat :=
  cs.foldl (fun acc c => acc * base + (c.toNat - '0'.toNat)) 0

/-- The value of a nonempty list of decimal digits. -/
def readDigits? (cs : List Char) : Option Nat :=
  if isDigits cs then some (digitsValue 10 cs) else none

/-- An unsigned decimal numeral: an optional plus sign, then at least one digit. -/
def readNatural? : List Char → Option Nat
  | '+' :: cs => readDigits? cs
  | cs => readDigits? cs

/-- A signed decimal numeral: an optional plus or minus sign, then at least one digit. -/
def readInteger? : List Char → Option Int
  | '+' :: cs => (readDigits? cs).map Int.ofNat
  | '-' :: cs => (readDigits? cs).map fun n => -Int.ofNat n
  | cs => (readDigits? cs).map Int.ofNat

/-- A natural number that fits in sixteen bits, as a word. -/
def wordOfNat? (n : Nat) : Option UInt16 :=
  if n < 65536 then some n.toUInt16 else none

/-- An unsigned decimal numeral whose value fits in sixteen bits. -/
def readWord? (text : String) : Option UInt16 :=
  (readNatural? text.toList).bind wordOfNat?

/-- A signed decimal numeral in the range of sixteen-bit two's complement, as its word. -/
def readSignedWord? (text : String) : Option UInt16 :=
  (readInteger? text.toList).bind fun v =>
    if -32768 ≤ v ∧ v < 32768 then some (Int.toNat (v % 65536)).toUInt16 else none

/-- A binary numeral: an optional plus sign, then at least one digit `0` or `1`, with a value
that fits in sixteen bits. -/
def readBinaryWord? (text : String) : Option UInt16 :=
  let digits := match text.toList with
    | '+' :: cs => cs
    | cs => cs
  if !digits.isEmpty && digits.all (fun c => c == '0' || c == '1') then
    wordOfNat? (digitsValue 2 digits)
  else none

/-- The sixteen binary digits of a word, most significant first. -/
def binary16 (w : UInt16) : String :=
  String.ofList ((List.range 16).reverse.map fun i =>
    if (w >>> i.toUInt16) &&& 1 == 1 then '1' else '0')

/-- The upper-case hexadecimal digit of a number below sixteen. -/
def hexDigit (n : Nat) : Char :=
  if n < 10 then Char.ofNat ('0'.toNat + n) else Char.ofNat ('A'.toNat + n - 10)

/-- The four upper-case hexadecimal digits of a word. -/
def hex4 (w : UInt16) : String :=
  let n := w.toNat
  String.ofList [hexDigit (n / 4096 % 16), hexDigit (n / 256 % 16), hexDigit (n / 16 % 16),
    hexDigit (n % 16)]

/-- The decimal numeral of a word read in two's complement. -/
def signedDecimal (w : UInt16) : String :=
  if w < 0x8000 then toString w.toNat else "-" ++ toString (65536 - w.toNat)

/-- A text widened to `width` characters by `fill` on the left. -/
def padLeft (width : Nat) (fill : Char) (text : String) : String :=
  String.ofList (List.replicate (width - text.length) fill) ++ text

/-- A text widened to `width` characters by `fill` on the right. -/
def padRight (width : Nat) (fill : Char) (text : String) : String :=
  text ++ String.ofList (List.replicate (width - text.length) fill)

end Hack.Text
