import Hack.Machine.State
import Hack.Isa.Styled
import Hack.Isa.Symbol
import Hack.Text.Numeral
import Hack.Yaml.Decode
/-! Traces of a run: after chosen steps the instruction and the registers, and optionally the VM
stack and chosen RAM words, as a YAML dump configuration asks. -/

set_option autoImplicit false

namespace Hack

open Text Yaml

/-- What to show after an instruction at some address runs. -/
structure Watch where
  stack : Bool := false
  heap : List UInt16 := []
  deriving DecidableEq, Repr

/-- Instruction addresses with what to show after each; an address appears once. -/
structure DumpConfig where
  entries : List (UInt16 × Watch) := []
  deriving Repr

namespace DumpConfig

/-- What to show after the instruction at an address. -/
def find? (config : DumpConfig) (pc : UInt16) : Option Watch :=
  (config.entries.find? (·.1 == pc)).map (·.2)

/-- Sets what to show at an address, replacing an earlier setting. -/
def insert (config : DumpConfig) (pc : UInt16) (watch : Watch) : DumpConfig :=
  if config.entries.any (·.1 == pc) then
    ⟨config.entries.map fun e => if e.1 == pc then (pc, watch) else e⟩
  else ⟨config.entries ++ [(pc, watch)]⟩

/-- The number of addresses. -/
def size (config : DumpConfig) : Nat :=
  config.entries.length

end DumpConfig

/-- Reads the fields of a watch from a mapping; other keys are ignored, a field twice is an
error. -/
def Watch.ofEntries (path : String) (mark : Mark) :
    List (Node × Node) → Option Bool → Option (List UInt16) → Except DecodeError Watch
  | [], stack, heap => .ok { stack := stack.getD false, heap := heap.getD [] }
  | (key, value) :: rest, stack, heap =>
    match key.keyText with
    | some "stack" =>
      if stack.isSome then .error (.mismatch path "duplicate field `stack`" mark)
      else do
        let b ← value.toBool (keyPath path "stack")
        Watch.ofEntries path mark rest (some b) heap
    | some "heap" =>
      if heap.isSome then .error (.mismatch path "duplicate field `heap`" mark)
      else do
        let ws ← value.toWords (keyPath path "heap")
        Watch.ofEntries path mark rest stack (some ws)
    | some _ => Watch.ofEntries path mark rest stack heap
    | none => invalidType path key "field identifier"

/-- Reads a watch written as a sequence: the stack flag, then the heap addresses, each
optional. -/
def Watch.ofItems (path : String) (mark : Mark) (items : List Node) : Except DecodeError Watch :=
  match items with
  | [] => .ok {}
  | [stack] => do
    let b ← stack.toBool (itemPath path 0)
    pure { stack := b }
  | [stack, heap] => do
    let b ← stack.toBool (itemPath path 0)
    let ws ← heap.toWords (itemPath path 1)
    pure { stack := b, heap := ws }
  | stack :: heap :: _ => do
    let _ ← stack.toBool (itemPath path 0)
    let _ ← heap.toWords (itemPath path 1)
    .error (.mismatch path ("invalid length " ++ toString items.length ++
      ", expected sequence of 2 elements") mark)

/-- Reads a watch, from a mapping or a sequence; a value left out shows nothing. -/
def Watch.ofNode (path : String) (node : Node) : Except DecodeError Watch :=
  match node with
  | .map entries mark => Watch.ofEntries path mark entries none none
  | .seq items mark => Watch.ofItems path mark items
  | _ => if node.isAbsent then .ok {} else invalidType path node "struct Config"

/-- Reads a dump configuration from a node: a mapping from addresses to watches. -/
def DumpConfig.ofNode (node : Node) : Except DecodeError DumpConfig :=
  match node with
  | .map entries _ =>
    entries.foldlM (fun config (key, value) => do
      let pc ← key.toWord "."
      let watch ← Watch.ofNode ((key.keyText).getD "?") value
      pure (config.insert pc watch)) {}
  | _ => if node.isAbsent then .ok {} else invalidType "." node "a map"

/-- Reads a dump configuration from YAML text. -/
def DumpConfig.parse (text : String) : Except DecodeError DumpConfig :=
  readNode text >>= DumpConfig.ofNode

/-- A row of a memory table: address and word. -/
def memoryRow (addr value : UInt16) : String :=
  " | " ++ hex4 addr ++ " : " ++ hex4 value ++ "                                   |\n"

/-- The rule under a memory table. -/
def memoryRule : String :=
  " +-----------------------------------------------+\n"

/-- The line of an executed instruction: step number, address, and the instruction in colour or
`invalid`. -/
def instructionLine (time : Nat) (addr word : UInt16) : String :=
  let inst := match Inst.ofWord? word with
    | some i => i.styled
    | none => Styled.render [(Style.alarm, "invalid")]
  "[" ++ padLeft 6 '0' (toString time) ++ "] " ++ hex4 addr ++ ": " ++ inst ++ "\n"

/-- The box of registers and VM pointers. -/
def registerBox (m : Machine) : String :=
  let rule := " +-----------+-----------+-----------+-----------+\n"
  rule ++
  " | pc: " ++ hex4 m.pc ++ "  |  a: " ++ hex4 m.a ++ "  |  d: " ++ hex4 m.d ++
    "  |           |\n" ++
  " | sp: " ++ hex4 (m.get Reg.sp) ++ "  | lcl: " ++ hex4 (m.get Reg.lcl) ++ " | arg: " ++
    hex4 (m.get Reg.arg) ++ " |           |\n" ++
  " |           | this:" ++ hex4 (m.get Reg.thisPtr) ++ " | that:" ++ hex4 (m.get Reg.thatPtr) ++
    " |           |\n" ++
  rule

/-- The VM stack: the words from 256 up to the stack pointer. -/
def stackTable (m : Machine) : String :=
  let sp := (m.get Reg.sp).toNat
  String.join ((List.range (sp - stackBase)).map fun i =>
    let addr := (stackBase + i).toUInt16
    memoryRow addr (m.get addr)) ++ memoryRule

/-- Chosen RAM words. -/
def heapTable (m : Machine) (addrs : List UInt16) : String :=
  String.join (addrs.map fun addr => memoryRow addr (m.get addr)) ++ memoryRule

/-- What a traced run prints. -/
structure Tracer where
  config : DumpConfig := {}
  all : Bool := false

/-- What is printed after step `time` ran the word at `addr`, leaving the machine `m`. -/
def Tracer.after (t : Tracer) (time : Nat) (addr word : UInt16) (m : Machine) : String :=
  match t.config.find? addr with
  | some watch =>
    instructionLine time addr word ++ registerBox m ++
      (if watch.stack then stackTable m else "") ++ heapTable m watch.heap
  | none => if t.all then instructionLine time addr word ++ registerBox m else ""

/-- Runs at most `fuel` more steps from step `time` while not terminated, adding to `out` what
each step prints. -/
def Tracer.runFrom (t : Tracer) : Nat → Machine → Nat → String → Machine × Nat × String
  | 0, m, time, out => (m, time, out)
  | fuel + 1, m, time, out =>
    if m.isTerminated then (m, time, out)
    else
      let (m', addr, word) := m.exec
      t.runFrom fuel m' (time + 1) (out ++ t.after time addr word m')

/-- Runs for at most `tmax` steps; answers the machine, the steps run and the trace. -/
def Tracer.run (t : Tracer) (m : Machine) (tmax : Nat) : Machine × Nat × String :=
  t.runFrom tmax m 0 ""

end Hack
