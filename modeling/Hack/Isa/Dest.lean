/-! The destination field of a compute instruction: which of A, D and M receive the ALU's output. -/

set_option autoImplicit false

namespace Hack

/-- Which registers a compute instruction writes. -/
structure Dest where
  a : Bool
  d : Bool
  m : Bool
  deriving DecidableEq, Repr, Inhabited

namespace Dest

/-- No register is written. -/
def none : Dest := ⟨false, false, false⟩

def M : Dest := ⟨false, false, true⟩
def D : Dest := ⟨false, true, false⟩
def MD : Dest := ⟨false, true, true⟩
def A : Dest := ⟨true, false, false⟩
def AM : Dest := ⟨true, false, true⟩
def AD : Dest := ⟨true, true, false⟩
def AMD : Dest := ⟨true, true, true⟩

/-- Whether no register is written. -/
def isNull (dest : Dest) : Bool :=
  !dest.a && !dest.d && !dest.m

/-- The three-bit code `d1 d2 d3` for A, D and M. -/
def code (dest : Dest) : UInt16 :=
  (if dest.a then 4 else 0) + (if dest.d then 2 else 0) + (if dest.m then 1 else 0)

/-- The destination of the low three bits of a word. -/
def ofCode (bits : UInt16) : Dest :=
  ⟨bits &&& 4 != 0, bits &&& 2 != 0, bits &&& 1 != 0⟩

/-- The mnemonic: `A`, `M`, `D` for the registers written, in that order. -/
def mnemonic (dest : Dest) : String :=
  (if dest.a then "A" else "") ++ (if dest.m then "M" else "") ++ (if dest.d then "D" else "")

/-- Every destination once, by code. -/
def all : List Dest :=
  (List.range 8).map fun n => ofCode n.toUInt16

/-- The destination a mnemonic names; the empty mnemonic is no destination. -/
def ofMnemonic? (text : String) : Option Dest :=
  all.find? fun dest => dest.mnemonic == text

theorem ofMnemonic?_mnemonic (dest : Dest) : ofMnemonic? dest.mnemonic = some dest := by
  obtain ⟨a, d, m⟩ := dest
  cases a <;> cases d <;> cases m <;> rfl

theorem ofCode_code (dest : Dest) : ofCode dest.code = dest := by
  obtain ⟨a, d, m⟩ := dest
  cases a <;> cases d <;> cases m <;> rfl

theorem code_lt (dest : Dest) : dest.code < 8 := by
  obtain ⟨a, d, m⟩ := dest
  cases a <;> cases d <;> cases m <;> decide

end Dest

end Hack
