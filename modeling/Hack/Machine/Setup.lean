import Hack.Isa.Symbol
import Hack.Text.Blank
import Hack.Text.Numeral
import Hack.Text.Split
/-! RAM presets `ADDR=VALUE`, written before a program starts. -/

set_option autoImplicit false

namespace Hack

/-- A preset that does not read as `ADDR=VALUE`. -/
structure SetupError where
  text : String
  deriving DecidableEq, Repr

/-- The message of a bad preset. -/
def SetupError.message (e : SetupError) : String :=
  "Invalid setup `" ++ e.text ++ "`: expected ADDR=VALUE"

/-- The address of a predefined symbol. -/
def predefinedAddress? (name : String) : Option UInt16 :=
  (predefined.find? fun p => p.1 == name).map (·.2)

/-- Reads a preset into an address and a value. -/
def parseSetup (text : String) : Except SetupError (UInt16 × UInt16) :=
  let parsed := do
    let (before, after) ← Text.splitAtChar '=' text.toList
    let addrText := String.ofList (Text.trimChars before)
    let valueText := String.ofList (Text.trimChars after)
    let addr ← (Text.readWord? addrText).orElse fun _ => predefinedAddress? addrText
    let value ← (Text.readWord? valueText).orElse fun _ => Text.readSignedWord? valueText
    pure (addr, value)
  match parsed with
  | some p => .ok p
  | none => .error ⟨text⟩

end Hack
