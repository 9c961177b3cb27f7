/-! The commands of the stack-based VM language, with global names, and their VM text. -/

set_option autoImplicit false

namespace Hack.Vm

/-- The arithmetic and logical commands. -/
inductive ArithOp where
  | add | sub | neg | eq | gt | lt | and | or | not
  deriving DecidableEq, Repr

/-- Whether a command moves a word onto the stack or off it. -/
inductive Access where
  | push | pop
  deriving DecidableEq, Repr

/-- The eight memory segments; `locals` is the segment spelled `local`. -/
inductive Segment where
  | argument | locals | static | constant | this | that | pointer | temp
  deriving DecidableEq, Repr

/-- The branch commands. -/
inductive BranchKind where
  | label | goto | ifGoto
  deriving DecidableEq, Repr

/-- The segments addressed through a base pointer in RAM. -/
inductive Base where
  | locals | argument | this | that
  deriving DecidableEq, Repr

/-- A resolved memory slot. -/
inductive Slot where
  | constant (value : UInt16)
  /-- A static variable, named `File.i`. -/
  | static (name : String)
  | temp (index : UInt16)
  | pointer (index : UInt16)
  | frame (base : Base) (index : UInt16)
  deriving DecidableEq, Repr

/-- A VM command with global names. -/
inductive Command where
  | arithmetic (op : ArithOp)
  | memory (access : Access) (slot : Slot)
  | branch (kind : BranchKind) (label : String)
  /-- The entry of a function with its number of local variables. -/
  | define (name : String) (locals : UInt16)
  /-- A call with its number of arguments and the label it returns to. -/
  | call (name : String) (args : UInt16) (retTag : String)
  | ret
  deriving DecidableEq, Repr

namespace ArithOp

def all : List ArithOp := [add, sub, neg, eq, gt, lt, and, or, not]

def keyword : ArithOp → String
  | add => "add"
  | sub => "sub"
  | neg => "neg"
  | eq => "eq"
  | gt => "gt"
  | lt => "lt"
  | and => "and"
  | or => "or"
  | not => "not"

/-- The operation a keyword names, case-sensitively. -/
def ofKeyword? (text : String) : Option ArithOp :=
  all.find? (·.keyword == text)

end ArithOp

def Access.keyword : Access → String
  | .push => "push"
  | .pop => "pop"

/-- The access a keyword names. -/
def Access.ofKeyword? : String → Option Access
  | "push" => some .push
  | "pop" => some .pop
  | _ => none

namespace Segment

def all : List Segment := [argument, locals, static, constant, this, that, pointer, temp]

def keyword : Segment → String
  | argument => "argument"
  | locals => "local"
  | static => "static"
  | constant => "constant"
  | this => "this"
  | that => "that"
  | pointer => "pointer"
  | temp => "temp"

/-- The segment a keyword names, case-sensitively. -/
def ofKeyword? (text : String) : Option Segment :=
  all.find? (·.keyword == text)

end Segment

def BranchKind.keyword : BranchKind → String
  | .label => "label"
  | .goto => "goto"
  | .ifGoto => "if-goto"

/-- The branch kind a keyword names. -/
def BranchKind.ofKeyword? : String → Option BranchKind
  | "label" => some .label
  | "goto" => some .goto
  | "if-goto" => some .ifGoto
  | _ => none

namespace Base

/-- The RAM pointer that holds the segment's base address. -/
def register : Base → String
  | locals => "LCL"
  | argument => "ARG"
  | this => "THIS"
  | that => "THAT"

def segment : Base → Segment
  | locals => .locals
  | argument => .argument
  | this => .this
  | that => .that

end Base

/-- The segment of a slot. -/
def Slot.segment : Slot → Segment
  | .constant _ => .constant
  | .static _ => .static
  | .temp _ => .temp
  | .pointer _ => .pointer
  | .frame base _ => base.segment

/-- A slot as VM text: its segment, then its index or static name. -/
def Slot.text (slot : Slot) : String :=
  slot.segment.keyword ++ " " ++
    match slot with
    | .static name => name
    | .constant i | .temp i | .pointer i | .frame _ i => toString i.toNat

/-- A command as VM text. -/
def Command.text : Command → String
  | .arithmetic op => op.keyword
  | .memory access slot => access.keyword ++ " " ++ slot.text
  | .branch kind label => kind.keyword ++ " " ++ label
  | .define name locals => "function " ++ name ++ " " ++ toString locals.toNat
  | .call name args _ => "call " ++ name ++ " " ++ toString args.toNat
  | .ret => "return"

end Hack.Vm
