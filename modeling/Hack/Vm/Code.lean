import Hack.Vm.Command
import Hack.Isa.Inst
/-! Lowering VM commands to assembly pieces: the stack in `SP`, `R13` to `R15` as scratch, two
labels `__CMPid$TRUE` and `__CMPid$END` per comparison, and the five-word call frame. -/

set_option autoImplicit false

namespace Hack.Vm

/-- The address loaded by an instruction: a number or a symbol. -/
inductive Address where
  | number (value : Nat)
  | name (symbol : String)
  deriving DecidableEq, Repr

/-- An assembly instruction with a symbolic address. -/
inductive Instr where
  | load (address : Address)
  | compute (dest : Dest) (comp : Comp) (jump : Jump)
  deriving DecidableEq, Repr

/-- A line of generated assembly. -/
inductive Piece where
  | instr (i : Instr)
  | label (name : String)
  | comment (text : String)
  deriving DecidableEq, Repr

/-- An instruction as assembly text. -/
def Instr.text : Instr → String
  | .load (.number n) => "@" ++ toString n
  | .load (.name s) => "@" ++ s
  | .compute dest comp jump => (Inst.compute dest comp jump).text

namespace Code

/-- `@symbol`. -/
def addr (symbol : String) : Piece := .instr (.load (.name symbol))

/-- `@n`. -/
def literal (n : Nat) : Piece := .instr (.load (.number n))

/-- `dest=comp`. -/
def assign (dest : Dest) (comp : Comp) : Piece := .instr (.compute dest comp Jump.none)

/-- `comp;jump`. -/
def branchOn (comp : Comp) (jump : Jump) : Piece := .instr (.compute Dest.none comp jump)

/-- Pushes D: `RAM[SP] = D`, then `SP` goes up. -/
def pushD : List Piece :=
  [addr "SP", assign Dest.M .incM, assign Dest.A .decM, assign Dest.M .d]

/-- Pops into D: `SP` goes down, then `D = RAM[SP]`. -/
def popD : List Piece :=
  [addr "SP", assign Dest.AM .decM, assign Dest.D .m]

/-- Pops y, and replaces the new top x with `x op y`. -/
def binary (comp : Comp) : List Piece :=
  [addr "SP", assign Dest.AM .decM, assign Dest.D .m, assign Dest.A .decA, assign Dest.M comp]

/-- Replaces the top with an operation on it. -/
def unary (comp : Comp) : List Piece :=
  [addr "SP", assign Dest.A .decM, assign Dest.M comp]

/-- Pops y and replaces the new top x with -1 if `x - y` passes the jump, else 0. -/
def compare (id : Nat) (jump : Jump) : List Piece :=
  let onTrue := "__CMP" ++ toString id ++ "$TRUE"
  let done := "__CMP" ++ toString id ++ "$END"
  [addr "SP", assign Dest.AM .decM, assign Dest.D .m, assign Dest.A .decA, assign Dest.D .subMD,
   addr onTrue, branchOn .d jump] ++
  unary .zero ++ [addr done, branchOn .zero Jump.JMP, .label onTrue] ++
  unary .negOne ++ [.label done]

/-- The code of an arithmetic command; `id` numbers a comparison's labels. -/
def arithmetic (id : Nat) : ArithOp → List Piece
  | .add => binary .addDM
  | .sub => binary .subMD
  | .and => binary .andDM
  | .or => binary .orDM
  | .neg => unary .negM
  | .not => unary .notM
  | .eq => compare id Jump.JEQ
  | .gt => compare id Jump.JGT
  | .lt => compare id Jump.JLT

/-- Sixteen-bit addition as the generator is built, with overflow checks: the sum, or `none` where
it leaves sixteen bits and the generator panics. -/
def checkedAdd (x y : UInt16) : Option UInt16 :=
  if x.toNat + y.toNat < 65536 then some (x + y) else none

theorem checkedAdd_eq_some {x y : UInt16} (fits : x.toNat + y.toNat < 65536) :
    checkedAdd x y = some (x + y) :=
  if_pos fits

theorem checkedAdd_eq_none_iff (x y : UInt16) :
    checkedAdd x y = none ↔ 65536 ≤ x.toNat + y.toNat := by
  unfold checkedAdd
  split
  · next fits => exact iff_of_false (fun found => by cases found) (by omega)
  · next wraps => exact iff_of_true rfl (by omega)

/-- The temp register of an index: `R` and the sixteen-bit sum of 5 and the index. Past index
65530 the sum overflows and the generator panics; a panic's value is the default, the empty name. -/
def tempRegister (index : UInt16) : String :=
  match checkedAdd 5 index with
  | some register => "R" ++ toString register.toNat
  | none => default

theorem tempRegister_of_le {index : UInt16} (small : index.toNat ≤ 65530) :
    tempRegister index = "R" ++ toString (5 + index.toNat) := by
  have fits : (5 : UInt16).toNat + index.toNat < 65536 := by
    simp only [UInt16.reduceToNat]
    omega
  have sum : ((5 : UInt16) + index).toNat = 5 + index.toNat := by
    simp only [UInt16.toNat_add, UInt16.reduceToNat]
    omega
  unfold tempRegister
  rw [checkedAdd_eq_some fits]
  simp only [sum]

/-- The pointer register of an index: `THIS` for 0, `THAT` otherwise. -/
def pointerRegister (index : UInt16) : String :=
  if index = 0 then "THIS" else "THAT"

/-- Adds an index to the address in D, into the given destination. -/
def offset (dest : Dest) (index : UInt16) : List Piece :=
  if index = 0 then []
  else if index = 1 then [assign dest .incD]
  else [literal index.toNat, assign dest .addDA]

/-- Pushes the value of a slot. -/
def push : Slot → List Piece
  | .constant v => [literal v.toNat, assign Dest.D .a] ++ pushD
  | .static name => [addr name, assign Dest.D .m] ++ pushD
  | .temp i => [addr (tempRegister i), assign Dest.D .m] ++ pushD
  | .pointer i => [addr (pointerRegister i), assign Dest.D .m] ++ pushD
  | .frame base i =>
    [addr base.register, assign Dest.AD .m] ++ offset Dest.A i ++ [assign Dest.D .m] ++ pushD

/-- Pops into a slot; the address of a frame slot waits in `R13` while D is popped. -/
def pop : Slot → List Piece
  | .constant _ => []
  | .static name => popD ++ [addr name, assign Dest.M .d]
  | .temp i => popD ++ [addr (tempRegister i), assign Dest.M .d]
  | .pointer i => popD ++ [addr (pointerRegister i), assign Dest.M .d]
  | .frame base i =>
    [addr base.register, assign Dest.D .m] ++ offset Dest.D i ++ [addr "R13", assign Dest.M .d] ++
      popD ++ [addr "R13", assign Dest.A .m, assign Dest.M .d]

/-- The pointers a call saves, in push order. -/
def saved : List String := ["LCL", "ARG", "THIS", "THAT"]

/-- Calls a function with `args` arguments already pushed, returning to the label `retTag`. -/
def call (name : String) (args : Nat) (retTag : String) : List Piece :=
  [addr retTag, assign Dest.D .a] ++ pushD ++
  saved.flatMap (fun reg => [addr reg, assign Dest.D .m] ++ pushD) ++
  [addr "SP", assign Dest.D .m, addr "LCL", assign Dest.M .d,
   literal (args + 5), assign Dest.D .subDA, addr "ARG", assign Dest.M .d,
   addr name, branchOn .zero Jump.JMP, .label retTag]

/-- Returns from the current function. -/
def ret : List Piece :=
  [addr "LCL", assign Dest.D .m, literal 5, assign Dest.A .subDA, assign Dest.D .m,
   addr "R14", assign Dest.M .d] ++
  popD ++ [addr "ARG", assign Dest.A .m, assign Dest.M .d, assign Dest.D .incA, addr "R15",
   assign Dest.M .d, addr "LCL", assign Dest.D .m, addr "SP", assign Dest.M .d] ++
  saved.reverse.flatMap (fun reg => popD ++ [addr reg, assign Dest.M .d]) ++
  [addr "R15", assign Dest.D .m, addr "SP", assign Dest.M .d, addr "R14", assign Dest.A .m,
   branchOn .zero Jump.JMP]

/-- The entry of a function: its label, then each local pushed as zero. -/
def define (name : String) (locals : Nat) : List Piece :=
  .label name :: (List.replicate locals [addr "SP", assign Dest.M .incM, assign Dest.A .decM,
    assign Dest.M .zero]).flatten

/-- The return tag of the bootstrap's call. -/
def bootstrapReturn : String := "__bootstrap$ret"

/-- Sets `SP` to 256 and the other pointers to -1 to -4, then calls `Sys.init`. -/
def bootstrap : List Piece :=
  [.comment "bootstrap", literal 256, assign Dest.D .a, addr "SP", assign Dest.M .d,
   addr "LCL", assign Dest.MD .negOne] ++
  (["ARG", "THIS", "THAT"].flatMap fun reg => [addr reg, assign Dest.MD .decD]) ++
  [.comment "call Sys.init 0"] ++ call "Sys.init" 0 bootstrapReturn

end Code

/-- The code of a command without its leading comment; `id` numbers a comparison's labels. -/
def Command.body (id : Nat) : Command → List Piece
  | .arithmetic op => Code.arithmetic id op
  | .memory .push slot => Code.push slot
  | .memory .pop slot => Code.pop slot
  | .branch .label label => [.label label]
  | .branch .goto label => [Code.addr label, Code.branchOn .zero Jump.JMP]
  | .branch .ifGoto label => Code.popD ++ [Code.addr label, Code.branchOn .d Jump.JNE]
  | .define name locals => Code.define name locals.toNat
  | .call name args retTag => Code.call name args.toNat retTag
  | .ret => Code.ret

/-- The code of a command: a comment with its text, then its body. -/
def Command.lower (id : Nat) (cmd : Command) : List Piece :=
  .comment cmd.text :: cmd.body id

/-- Whether a command takes a comparison number. -/
def Command.isComparison : Command → Bool
  | .arithmetic .eq | .arithmetic .gt | .arithmetic .lt => true
  | _ => false

end Hack.Vm
