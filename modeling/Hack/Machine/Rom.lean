import Hack.Machine.State
import Hack.Text.Blank
import Hack.Text.Lines
import Hack.Text.Numeral
/-! Loading programs: from words, at most as many as the ROM holds, or from binary text, one
sixteen-byte binary numeral per non-blank trimmed line. A failed load leaves the machine as it was. -/

set_option autoImplicit false

namespace Hack

/-- Why a program does not load. -/
inductive LoadError where
  /-- A line of binary text, one-based, that is not a sixteen-digit word. -/
  | invalidWord (line : Nat) (text : String)
  /-- More words than the ROM holds. -/
  | romOverflow (count capacity : Nat)
  deriving DecidableEq, Repr

/-- The message of a load error. -/
def LoadError.message : LoadError → String
  | .invalidWord line text =>
    "Line " ++ toString line ++ " is not a 16-digit binary word: `" ++ text ++ "`"
  | .romOverflow count capacity =>
    "Program has " ++ toString count ++ " words, ROM holds " ++ toString capacity

/-- Reads one line of binary text, with its zero-based index; a blank line has no word. -/
def readWordLine (index : Nat) (raw : String) : Except LoadError (Option UInt16) :=
  let line := Text.trim raw
  if line.isEmpty then .ok none
  else if line.utf8ByteSize ≠ 16 then .error (.invalidWord (index + 1) line)
  else match Text.readBinaryWord? line with
    | some w => .ok (some w)
    | none => .error (.invalidWord (index + 1) line)

/-- The words of binary text. -/
def readWords (text : String) : Except LoadError (List UInt16) :=
  ((Text.lines text).zipIdx.mapM fun (raw, index) => readWordLine index raw).map List.reduceOption

namespace Machine

/-- The machine with another program, one that fits, in its ROM. -/
def withRom (m : Machine) (words : Array UInt16) (fits : words.size ≤ romCapacity) : Machine :=
  { m with rom := words, rom_size_le := fits }

/-- Loads a program from words. -/
def loadRom (m : Machine) (words : Array UInt16) : Except LoadError Machine :=
  if big : words.size > romCapacity then .error (.romOverflow words.size romCapacity)
  else .ok (m.withRom words (Nat.le_of_not_lt big))

/-- Loads a program from binary text. -/
def loadRomText (m : Machine) (text : String) : Except LoadError Machine :=
  readWords text >>= fun words => m.loadRom words.toArray

end Machine

end Hack
