/-! The 28 computations of a compute instruction: seven-bit codes, canonical mnemonics with the
commutative aliases, and the output of each from D, A and M. -/

set_option autoImplicit false

namespace Hack

/-- The 28 computations of the ALU. -/
inductive Comp where
  | zero | one | negOne
  | d | a | notD | notA | negD | negA
  | incD | incA | decD | decA
  | addDA | subDA | subAD | andDA | orDA
  | m | notM | negM | incM | decM
  | addDM | subDM | subMD | andDM | orDM
  deriving DecidableEq, Repr, Inhabited

namespace Comp

/-- Every computation once, in code-table order. -/
def all : List Comp :=
  [zero, one, negOne, d, a, notD, notA, negD, negA, incD, incA, decD, decA,
   addDA, subDA, subAD, andDA, orDA, m, notM, negM, incM, decM, addDM, subDM, subMD, andDM, orDM]

/-- The seven-bit code: the `a` bit selects M over A, the six `c` bits drive the ALU. -/
def code : Comp → UInt16
  | zero => 0b0101010
  | one => 0b0111111
  | negOne => 0b0111010
  | d => 0b0001100
  | a => 0b0110000
  | notD => 0b0001101
  | notA => 0b0110001
  | negD => 0b0001111
  | negA => 0b0110011
  | incD => 0b0011111
  | incA => 0b0110111
  | decD => 0b0001110
  | decA => 0b0110010
  | addDA => 0b0000010
  | subDA => 0b0010011
  | subAD => 0b0000111
  | andDA => 0b0000000
  | orDA => 0b0010101
  | m => 0b1110000
  | notM => 0b1110001
  | negM => 0b1110011
  | incM => 0b1110111
  | decM => 0b1110010
  | addDM => 0b1000010
  | subDM => 0b1010011
  | subMD => 0b1000111
  | andDM => 0b1000000
  | orDM => 0b1010101

/-- The canonical mnemonic. -/
def mnemonic : Comp → String
  | zero => "0"
  | one => "1"
  | negOne => "-1"
  | d => "D"
  | a => "A"
  | notD => "!D"
  | notA => "!A"
  | negD => "-D"
  | negA => "-A"
  | incD => "D+1"
  | incA => "A+1"
  | decD => "D-1"
  | decA => "A-1"
  | addDA => "D+A"
  | subDA => "D-A"
  | subAD => "A-D"
  | andDA => "D&A"
  | orDA => "D|A"
  | m => "M"
  | notM => "!M"
  | negM => "-M"
  | incM => "M+1"
  | decM => "M-1"
  | addDM => "D+M"
  | subDM => "D-M"
  | subMD => "M-D"
  | andDM => "D&M"
  | orDM => "D|M"

/-- The other operand order of a commutative computation, if it has one. -/
def swappedMnemonic? : Comp → Option String
  | addDA => some "A+D"
  | andDA => some "A&D"
  | orDA => some "A|D"
  | addDM => some "M+D"
  | andDM => some "M&D"
  | orDM => some "M|D"
  | _ => none

/-- The computation a mnemonic names, in either operand order; names are case-sensitive. -/
def ofMnemonic? (text : String) : Option Comp :=
  all.find? fun c => c.mnemonic == text || c.swappedMnemonic? == some text

/-- The computation with a seven-bit code, if any. -/
def ofCode? (bits : UInt16) : Option Comp :=
  all.find? fun c => c.code == bits

/-- Whether the computation reads M rather than A: its `a` bit. -/
def readsMemory (c : Comp) : Bool :=
  c.code &&& 0b1000000 != 0

/-- The ALU output for the registers D and A and the memory word M, in sixteen-bit wrapping
arithmetic. -/
def eval (c : Comp) (dv av mv : UInt16) : UInt16 :=
  match c with
  | zero => 0
  | one => 1
  | negOne => 0xFFFF
  | d => dv
  | a => av
  | notD => ~~~dv
  | notA => ~~~av
  | negD => 0 - dv
  | negA => 0 - av
  | incD => dv + 1
  | incA => av + 1
  | decD => dv - 1
  | decA => av - 1
  | addDA => dv + av
  | subDA => dv - av
  | subAD => av - dv
  | andDA => dv &&& av
  | orDA => dv ||| av
  | m => mv
  | notM => ~~~mv
  | negM => 0 - mv
  | incM => mv + 1
  | decM => mv - 1
  | addDM => dv + mv
  | subDM => dv - mv
  | subMD => mv - dv
  | andDM => dv &&& mv
  | orDM => dv ||| mv

theorem mem_all (c : Comp) : c ∈ all := by
  cases c <;> decide

theorem ofMnemonic?_mnemonic (c : Comp) : ofMnemonic? c.mnemonic = some c := by
  cases c <;> rfl

theorem ofCode?_code (c : Comp) : ofCode? c.code = some c := by
  cases c <;> rfl

theorem code_lt (c : Comp) : c.code < 128 := by
  cases c <;> decide

end Comp

end Hack
