import Hack.Text.Quoted
/-! Assembly errors: what can go wrong while reading and resolving an assembly program, and the
message of each. -/

set_option autoImplicit false

namespace Hack.Asm

/-- Why an assembly line or program is refused. -/
inductive Error where
  /-- The operand of `@` is neither a number nor a symbol. -/
  | invalidAddress (operand : String)
  /-- The operand of `@` is a number above fifteen bits. -/
  | addressOutOfRange (operand : String)
  /-- A line starting with `(` is not `(symbol)`. -/
  | invalidLabel (code : String)
  /-- A compute line whose destination, computation or jump is unknown. -/
  | invalidCombination (dest comp jump : String)
  /-- A compute line with its `;` before its `=`. -/
  | misorderedCompute (code : String)
  /-- A symbol with an empty name. -/
  | emptySymbol
  /-- A symbol defined a second time, with the address of its first definition. -/
  | redefinedLabel (name : String) (previous : UInt16)
  /-- A symbol that nothing defines. -/
  | undefinedSymbol (name : String)
  /-- No RAM word is left for a new variable. -/
  | variableOverflow (name : String)
  /-- An instruction or label past the last ROM word. -/
  | programTooLarge
  deriving DecidableEq, Repr

/-- The message of an error. -/
def Error.message : Error → String
  | .invalidAddress operand => "Invalid address: `@" ++ operand ++ "`"
  | .addressOutOfRange operand =>
    "Address out of range: `" ++ operand ++ "` does not fit in 15 bits"
  | .invalidLabel code => "Invalid label definition: `" ++ code ++ "`"
  | .invalidCombination dest comp jump =>
    "Invalid instruction (dest, comp, jump): (" ++ Text.quote dest ++ ", " ++ Text.quote comp ++
      ", " ++ Text.quote jump ++ ")"
  | .misorderedCompute code => "`=` must come before `;`: `" ++ code ++ "`"
  | .emptySymbol => "Empty symbol name"
  | .redefinedLabel name previous =>
    "Re-defined label: `" ++ name ++ "` (first defined for address " ++ toString previous.toNat ++
      ")"
  | .undefinedSymbol name => "Undefined symbol: `" ++ name ++ "`"
  | .variableOverflow name => "Out of variable memory while allocating `" ++ name ++ "`"
  | .programTooLarge => "Program does not fit in instruction memory"

end Hack.Asm
