/-! Symbols of assembly and VM code, and the predefined symbols every program starts with. -/

set_option autoImplicit false

namespace Hack

/-- Whether a character may start a symbol. -/
def isSymbolStart (c : Char) : Bool :=
  c.isAlpha || c == '_' || c == '.' || c == '$' || c == ':'

/-- Whether a character may continue a symbol. -/
def isSymbolChar (c : Char) : Bool :=
  isSymbolStart c || c.isDigit

/-- Whether a list of characters spells a symbol. -/
def isSymbolChars : List Char → Bool
  | [] => false
  | c :: rest => isSymbolStart c && rest.all isSymbolChar

/-- Whether a text is a symbol. -/
def isSymbol (text : String) : Bool :=
  isSymbolChars text.toList

-- The RAM words the VM uses for its pointers.
namespace Reg

def sp : UInt16 := 0
def lcl : UInt16 := 1
def arg : UInt16 := 2
def thisPtr : UInt16 := 3
def thatPtr : UInt16 := 4
def temp : UInt16 := 5
def screen : UInt16 := 0x4000
def keyboard : UInt16 := 0x6000

end Reg

/-- The predefined symbols with their addresses, in their fixed order. -/
def predefined : List (String × UInt16) :=
  (List.range 16).map (fun n => ("R" ++ toString n, n.toUInt16)) ++
    [("SP", Reg.sp), ("LCL", Reg.lcl), ("ARG", Reg.arg), ("THIS", Reg.thisPtr),
     ("THAT", Reg.thatPtr), ("SCREEN", Reg.screen), ("KBD", Reg.keyboard)]

/-- The first RAM word given to assembly variables. -/
def variableBase : Nat := 16

/-- The bottom of the VM stack. -/
def stackBase : Nat := 256

/-- The largest value a load instruction can hold. -/
def addressMax : Nat := 0x7FFF

end Hack
