/-! The jump field of a compute instruction: on which signs of the ALU's output, read in two's
complement, the program counter moves to A. -/

set_option autoImplicit false

namespace Hack

/-- The signs of the ALU output on which the jump is taken. -/
structure Jump where
  lt : Bool
  eq : Bool
  gt : Bool
  deriving DecidableEq, Repr, Inhabited

namespace Jump

/-- Never jump. -/
def none : Jump := ⟨false, false, false⟩

def JGT : Jump := ⟨false, false, true⟩
def JEQ : Jump := ⟨false, true, false⟩
def JGE : Jump := ⟨false, true, true⟩
def JLT : Jump := ⟨true, false, false⟩
def JNE : Jump := ⟨true, false, true⟩
def JLE : Jump := ⟨true, true, false⟩
def JMP : Jump := ⟨true, true, true⟩

/-- Whether the jump is never taken. -/
def isNull (jump : Jump) : Bool :=
  !jump.lt && !jump.eq && !jump.gt

/-- The three-bit code `j1 j2 j3` for negative, zero and positive. -/
def code (jump : Jump) : UInt16 :=
  (if jump.lt then 4 else 0) + (if jump.eq then 2 else 0) + (if jump.gt then 1 else 0)

/-- The jump of the low three bits of a word. -/
def ofCode (bits : UInt16) : Jump :=
  ⟨bits &&& 4 != 0, bits &&& 2 != 0, bits &&& 1 != 0⟩

/-- The mnemonic of each condition. -/
def mnemonic (jump : Jump) : String :=
  match jump.lt, jump.eq, jump.gt with
  | false, false, false => ""
  | false, false, true => "JGT"
  | false, true, false => "JEQ"
  | false, true, true => "JGE"
  | true, false, false => "JLT"
  | true, false, true => "JNE"
  | true, true, false => "JLE"
  | true, true, true => "JMP"

/-- Every jump once, by code. -/
def all : List Jump :=
  (List.range 8).map fun n => ofCode n.toUInt16

/-- The jump a mnemonic names; the empty mnemonic is never. -/
def ofMnemonic? (text : String) : Option Jump :=
  all.find? fun jump => jump.mnemonic == text

/-- A word is negative in two's complement when its top bit is set. -/
def isNegative (w : UInt16) : Bool :=
  w ≥ 0x8000

/-- Whether the jump is taken for an ALU output read in two's complement. -/
def taken (jump : Jump) (out : UInt16) : Bool :=
  (jump.lt && isNegative out) || (jump.eq && out == 0) || (jump.gt && !isNegative out && out != 0)

theorem ofMnemonic?_mnemonic (jump : Jump) : ofMnemonic? jump.mnemonic = some jump := by
  obtain ⟨lt, eq, gt⟩ := jump
  cases lt <;> cases eq <;> cases gt <;> rfl

theorem ofCode_code (jump : Jump) : ofCode jump.code = jump := by
  obtain ⟨lt, eq, gt⟩ := jump
  cases lt <;> cases eq <;> cases gt <;> rfl

theorem code_lt (jump : Jump) : jump.code < 8 := by
  obtain ⟨lt, eq, gt⟩ := jump
  cases lt <;> cases eq <;> cases gt <;> decide

end Jump

end Hack
