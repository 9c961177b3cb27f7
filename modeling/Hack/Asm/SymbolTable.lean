import Hack.Isa.Symbol
import Hack.Asm.Error
/-! Symbol tables: names and addresses in the order they were added, the predefined symbols first; a
name is added once. -/

set_option autoImplicit false

namespace Hack.Asm

/-- Names with their addresses, in the order they were added. -/
structure SymbolTable where
  entries : Array (String × UInt16)
  deriving Repr

namespace SymbolTable

/-- The table of the predefined symbols. -/
def initial : SymbolTable :=
  ⟨predefined.toArray⟩

/-- The address of a name, if it has one. -/
def get? (table : SymbolTable) (name : String) : Option UInt16 :=
  (table.entries.find? fun e => e.1 == name).map (·.2)

/-- Whether a name has an address. -/
def contains (table : SymbolTable) (name : String) : Bool :=
  table.entries.any fun e => e.1 == name

/-- The number of names. -/
def size (table : SymbolTable) : Nat :=
  table.entries.size

/-- Gives a new name an address; an empty name, or one already there, is refused. -/
def add (table : SymbolTable) (name : String) (addr : UInt16) : Except Error SymbolTable :=
  if name.isEmpty then .error .emptySymbol
  else match table.get? name with
    | some previous => .error (.redefinedLabel name previous)
    | none => .ok ⟨table.entries.push (name, addr)⟩

/-- The names with their addresses, in insertion order. -/
def toList (table : SymbolTable) : List (String × UInt16) :=
  table.entries.toList

end SymbolTable

end Hack.Asm
