import Hack.Vm.Error
import Hack.Isa.Symbol
import Hack.Text.Blank
import Hack.Text.Comment
import Hack.Text.Lines
import Hack.Text.Numeral
import Hack.Diagnostic
/-! Reading VM code line by line in a scope: the file, the function being defined and the calls read
so far. -/

set_option autoImplicit false

namespace Hack.Vm

/-- The naming state of one VM file. -/
structure Scope where
  file : String
  function : String
  calls : Nat
  deriving DecidableEq, Repr

/-- The largest value a load instruction can hold. -/
def loadMax : Nat := 0x7FFF

/-- The words saved by a call: the return address and four pointers. -/
def frameSize : Nat := 5

/-- Reads a number operand: ASCII digits whose value fits in sixteen bits. -/
def readNumber (text : String) : Except Error UInt16 :=
  match Text.readDigits? text.toList >>= Text.wordOfNat? with
  | some n => .ok n
  | none => .error (.invalidNumber text)

/-- Checks a symbol operand. -/
def readSymbol (text : String) : Except Error String :=
  if isSymbol text then .ok text else .error (.invalidSymbol text)

/-- The operands of a command that takes a fixed number of them. -/
def expectOperands (head : String) (expected : Nat) (args : List String) :
    Except Error (List String) :=
  if args.length = expected then .ok args else .error (.operandCount head expected args.length)

namespace Scope

/-- The scope at the start of a file. -/
def init (file : String) : Scope :=
  { file, function := file ++ ".__DEFAULT", calls := 0 }

/-- The slot of a segment and index, where the index must suit the segment. -/
def slot (s : Scope) (access : Access) (segment : Segment) (index : UInt16) : Except Error Slot :=
  let outOfRange : Except Error Slot := .error (.indexOutOfRange segment index)
  match segment with
  | .constant =>
    if access = .pop then .error .popConstant
    else if index.toNat > loadMax then outOfRange
    else .ok (.constant index)
  | .static => .ok (.static (s.file ++ "." ++ toString index.toNat))
  | .temp => if index.toNat ≥ 8 then outOfRange else .ok (.temp index)
  | .pointer => if index.toNat ≥ 2 then outOfRange else .ok (.pointer index)
  | .locals => if index.toNat > loadMax then outOfRange else .ok (.frame .locals index)
  | .argument => if index.toNat > loadMax then outOfRange else .ok (.frame .argument index)
  | .this => if index.toNat > loadMax then outOfRange else .ok (.frame .this index)
  | .that => if index.toNat > loadMax then outOfRange else .ok (.frame .that index)

/-- Reads the words of a line whose first word is `head`. -/
def readWords (s : Scope) (head : String) (args : List String) : Except Error (Option Command) :=
  match ArithOp.ofKeyword? head with
  | some op =>
    if args.isEmpty then .ok (some (.arithmetic op)) else .error (.unexpectedOperand head)
  | none =>
  match Access.ofKeyword? head with
  | some access => do
    match ← expectOperands head 2 args with
    | [segment, index] =>
      let seg ← match Segment.ofKeyword? segment with
        | some seg => pure seg
        | none => throw (.unknownSegment segment)
      let i ← readNumber index
      let slot ← s.slot access seg i
      pure (some (.memory access slot))
    | _ => throw (.operandCount head 2 args.length)
  | none =>
  match BranchKind.ofKeyword? head with
  | some kind => do
    match ← expectOperands head 1 args with
    | [label] =>
      let label ← readSymbol label
      pure (some (.branch kind (s.function ++ "$" ++ label)))
    | _ => throw (.operandCount head 1 args.length)
  | none =>
  match head with
  | "function" => do
    match ← expectOperands head 2 args with
    | [name, locals] =>
      let name ← readSymbol name
      let locals ← readNumber locals
      pure (some (.define name locals))
    | _ => throw (.operandCount head 2 args.length)
  | "call" => do
    match ← expectOperands head 2 args with
    | [name, count] =>
      let name ← readSymbol name
      let count ← readNumber count
      if count.toNat + frameSize > loadMax then throw (.tooManyArguments count)
      pure (some (.call name count (s.function ++ "$ret." ++ toString s.calls)))
    | _ => throw (.operandCount head 2 args.length)
  | "return" => if args.isEmpty then .ok (some .ret) else .error (.unexpectedOperand head)
  | _ => .ok none

/-- Reads one line in the scope. -/
def read (s : Scope) (line : String) : Except Error (Option Command) :=
  match Text.words (Text.stripComment line) with
  | [] => .ok none
  | head :: args => s.readWords head args

/-- The scope after a command read in it. -/
def advance (s : Scope) : Command → Scope
  | .define name _ => { s with function := name }
  | .call .. => { s with calls := s.calls + 1 }
  | _ => s

/-- Reads one line and moves the scope past it; on an error the scope stays. -/
def step (s : Scope) (line : String) : Except Error (Option Command) × Scope :=
  match s.read line with
  | .ok (some cmd) => (.ok (some cmd), s.advance cmd)
  | .ok none => (.ok none, s)
  | .error e => (.error e, s)

/-- Reads numbered lines in order, stopping at the first error. -/
def readLines (path : String) :
    Scope → List (Nat × String) → Except (Located Error) (List Command × Scope)
  | s, [] => .ok ([], s)
  | s, (index, raw) :: rest =>
    match s.step raw with
    | (.error e, _) => .error (Located.at path index raw e)
    | (.ok cmd, s') =>
      match readLines path s' rest with
      | .ok (cmds, final) => .ok (cmd.toList ++ cmds, final)
      | .error e => .error e

/-- Reads a whole source text; `path` only names the file in errors. -/
def parse (s : Scope) (path source : String) : Except (Located Error) (List Command × Scope) :=
  readLines path s ((Text.lines source).zipIdx.map fun (raw, index) => (index, raw))

end Scope

end Hack.Vm
