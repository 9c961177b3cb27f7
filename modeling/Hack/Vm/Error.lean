import Hack.Vm.Command
/-! What can be wrong with a VM line, and the message of each. -/

set_option autoImplicit false

namespace Hack.Vm

/-- Why a VM line is refused. -/
inductive Error where
  /-- A command that takes no operands was given some. -/
  | unexpectedOperand (head : String)
  | operandCount (head : String) (expected got : Nat)
  | unknownSegment (text : String)
  /-- Not a run of ASCII digits with a value below 65536. -/
  | invalidNumber (text : String)
  | invalidSymbol (text : String)
  | indexOutOfRange (segment : Segment) (index : UInt16)
  | popConstant
  /-- A call whose frame arithmetic would not fit in a load. -/
  | tooManyArguments (count : UInt16)
  deriving DecidableEq, Repr

/-- The message of an error. -/
def Error.message : Error → String
  | .unexpectedOperand head => "`" ++ head ++ "` takes no operands"
  | .operandCount head expected got =>
    "Wrong number of operands for `" ++ head ++ "`: expected " ++ toString expected ++ ", got " ++
      toString got
  | .unknownSegment text => "Unknown segment: `" ++ text ++ "`"
  | .invalidNumber text => "Cannot parse `" ++ text ++ "` as a non-negative integer"
  | .invalidSymbol text => "Invalid symbol: `" ++ text ++ "`"
  | .indexOutOfRange segment index =>
    "Index " ++ toString index.toNat ++ " is out of range for segment `" ++ segment.keyword ++ "`"
  | .popConstant => "Cannot pop into the constant segment"
  | .tooManyArguments count => "Too many arguments for one call: " ++ toString count.toNat

end Hack.Vm
