import Hack.Isa.Comp
import Hack.Isa.Dest
import Hack.Isa.Jump
/-! Instructions as sixteen-bit words: a load `@v` of a fifteen-bit value, or `111` followed by the
computation, destination and jump codes. -/

set_option autoImplicit false

namespace Hack

/-- A machine instruction. -/
inductive Inst where
  /-- Load a value into A. Only its low fifteen bits reach the word. -/
  | load (value : UInt16)
  /-- Compute, write the destinations, and maybe jump to A. -/
  | compute (dest : Dest) (comp : Comp) (jump : Jump)
  deriving DecidableEq, Repr, Inhabited

namespace Inst

/-- The top three bits of every compute instruction. -/
def computePrefix : UInt16 := 0xE000

/-- The word of an instruction. -/
def toWord : Inst → UInt16
  | load value => value &&& 0x7FFF
  | compute dest comp jump =>
    computePrefix ||| (comp.code <<< 6) ||| (dest.code <<< 3) ||| jump.code

/-- The instruction of a word: top bit clear is a load; otherwise the top three bits must be set
and the computation bits must be one of the 28 codes. -/
def ofWord? (w : UInt16) : Option Inst :=
  if w &&& 0x8000 == 0 then some (load w)
  else if w &&& computePrefix != computePrefix then none
  else (Comp.ofCode? ((w >>> 6) &&& 0x7F)).map fun comp =>
    compute (Dest.ofCode ((w >>> 3) &&& 7)) comp (Jump.ofCode (w &&& 7))

/-- The assembly text: `@v`, or `dest=comp;jump` with an empty destination or jump left out
together with its sign. -/
def text : Inst → String
  | load value => "@" ++ toString value.toNat
  | compute dest comp jump =>
    (if dest.isNull then "" else dest.mnemonic ++ "=") ++ comp.mnemonic ++
      (if jump.isNull then "" else ";" ++ jump.mnemonic)

end Inst

end Hack
