import Hack.Proofs.CommandEffect
/-! A semantics of the VM: RAM words, a private cell for each static and the position of the next
command, with each command's step and return addresses kept as words of code. -/

set_option autoImplicit false

namespace Hack.Vm

/-- The RAM index of an address lies in the RAM: the bound of every write. -/
theorem slot_lt (x : UInt16) : (Machine.slot x : Nat) < ramSize :=
  (Machine.slot x).isLt

/-- The state of the VM running a program: its RAM, the private cell of each static, by the
static's name, and the position of the next command in the program. -/
structure State where
  ram : Vector UInt16 ramSize
  statics : String → UInt16
  pos : Nat

namespace State

/-- The RAM word at an address, the address taken modulo the RAM size as the machine takes it. -/
def get (s : State) (x : UInt16) : UInt16 :=
  s.ram.get (Machine.slot x)

/-- Writes a RAM word. -/
def set (s : State) (x v : UInt16) : State :=
  { s with ram := s.ram.set (Machine.slot x) v (slot_lt x) }

/-- Pushes a word: `SP` goes up, then the word at the old `SP` takes the value. -/
def push (s : State) (v : UInt16) : State :=
  (s.set 0 (s.get 0 + 1)).set (s.get 0) v

/-- Pushes `k` zeros, the locals of a function. -/
def pushZeros (s : State) : Nat → State
  | 0 => s
  | k + 1 => (s.push 0).pushZeros k

/-- The RAM word of a slot that lives in RAM: temp `i` is word `5 + i`, pointer `i` is word
`3 + i`, and a frame slot lies its index above the word its base pointer holds. -/
def wordOf (s : State) : Slot → UInt16
  | .temp i => 5 + i
  | .pointer i => 3 + i
  | .frame base i => s.get base.pointer + i
  | .constant _ | .static _ => 0

/-- The value of a slot: a constant itself, a static its cell, any other slot its RAM word. -/
def read (s : State) : Slot → UInt16
  | .constant v => v
  | .static name => s.statics name
  | .temp i => s.get (s.wordOf (.temp i))
  | .pointer i => s.get (s.wordOf (.pointer i))
  | .frame base i => s.get (s.wordOf (.frame base i))

/-- The state with a slot holding a word; the constant segment holds nothing. -/
def write (s : State) (v : UInt16) : Slot → State
  | .constant _ => s
  | .static name => { s with statics := Function.update s.statics name v }
  | .temp i => s.set (s.wordOf (.temp i)) v
  | .pointer i => s.set (s.wordOf (.pointer i)) v
  | .frame base i => s.set (s.wordOf (.frame base i)) v

/-- Pops the top word into a slot: `SP` goes down, then the slot takes the word. -/
def pop (s : State) (slot : Slot) : State :=
  (s.set 0 (s.get 0 - 1)).write (s.get (s.get 0 - 1)) slot

/-- An arithmetic command on the two top words, `x` below `y`: a unary command replaces `y` by
`op` of it, any other pops `y` and replaces `x` by `op x y`. -/
def arith (s : State) (op : ArithOp) : State :=
  let sp := s.get 0
  let v := op.apply (s.get (sp - 2)) (s.get (sp - 1))
  if op.isUnary then s.set (sp - 1) v else (s.set 0 (sp - 1)).set (sp - 2) v

/-- A call with `n` arguments on the stack that returns to the word `ret` of the code: the
return word and `LCL`, `ARG`, `THIS`, `THAT` are pushed, then `LCL` takes `SP` and `ARG` the
word of the first argument, `n + 5` below it. -/
def call (s : State) (n : Nat) (ret : UInt16) : State :=
  let framed := ((((s.push ret).push (s.get 1)).push (s.get 2)).push (s.get 3)).push (s.get 4)
  (framed.set 1 (framed.get 0)).set 2 (framed.get 0 - (n + 5).toUInt16)

/-- A return from the frame below `LCL`: the top word goes where the first argument was and `SP`
just above it, and `THAT`, `THIS`, `ARG`, `LCL` take the four words saved below `LCL`. -/
def ret (s : State) : State :=
  let l := s.get 1
  let a := s.get 2
  (((((s.set a (s.get (s.get 0 - 1))).set 0 (a + 1)).set 4 (s.get (l - 1))).set 3
    (s.get (l - 2))).set 2 (s.get (l - 3))).set 1 (s.get (l - 4))

@[simp] theorem statics_set (s : State) (x v : UInt16) : (s.set x v).statics = s.statics := rfl

@[simp] theorem pos_set (s : State) (x v : UInt16) : (s.set x v).pos = s.pos := rfl

/-- A write changes the word of its own RAM slot and no other. -/
theorem get_set (s : State) (x y v : UInt16) :
    (s.set x v).get y = if x.toNat % 32768 = y.toNat % 32768 then v else s.get y := by
  split
  · rename_i same
    have slots : Machine.slot y = Machine.slot x := Fin.ext same.symm
    show (s.ram.set (Machine.slot x) v).get (Machine.slot y) = v
    rw [slots]
    exact Vector.getElem_set_self (Machine.slot x).isLt
  · rename_i apart
    exact Vector.getElem_set_ne (Machine.slot x).isLt (Machine.slot y).isLt apart

/-- A push above the registers and below the last RAM word moves `SP` up by one. -/
theorem get_push_sp (s : State) (v : UInt16) (low : 16 ≤ (s.get 0).toNat)
    (high : (s.get 0).toNat < 32768) : (s.push v).get 0 = s.get 0 + 1 := by
  rw [push, get_set, if_neg (by simp only [UInt16.reduceToNat]; omega), get_set, if_pos rfl]

end State

/-! ### Positions -/

/-- The position of the command `label name`. -/
def labelAt (cmds : List Command) (name : String) : Option Nat :=
  cmds.findIdx? (· == .branch .label name)

/-- The position of the definition of a function. -/
def entryOf (cmds : List Command) (name : String) : Option Nat :=
  cmds.findIdx? (·.defines? == some name)

/-- The first position whose code starts at the word `w`. -/
def resumeAt (cmds : List Command) (code : Nat → UInt16) (w : UInt16) : Option Nat :=
  (List.range (cmds.length + 1)).find? (code · == w)

/-- The statics a program names, in order of use. -/
theorem labelAt_spec {cmds : List Command} {name : String} {p : Nat} (found : labelAt cmds name = some p) :
    cmds[p]? = some (.branch .label name) := by
  obtain ⟨inside, named, -⟩ := List.findIdx?_eq_some_iff_getElem.mp found
  rw [List.getElem?_eq_getElem inside, eq_of_beq named]

theorem entryOf_spec {cmds : List Command} {name : String} {p : Nat} (found : entryOf cmds name = some p) :
    ∃ locals, cmds[p]? = some (.define name locals) := by
  obtain ⟨inside, named, -⟩ := List.findIdx?_eq_some_iff_getElem.mp found
  rw [List.getElem?_eq_getElem inside]
  -- only a definition defines a name
  cases defined : cmds[p] with
  | define other locals =>
    rw [defined] at named
    cases eq_of_beq named
    exact ⟨locals, rfl⟩
  | _ => simp [defined, Command.defines?] at named

/-- A function the program defines has an entry. -/
theorem entryOf_isSome {cmds : List Command} {name : String} {locals : UInt16}
    (defined : .define name locals ∈ cmds) : (entryOf cmds name).isSome := by
  rw [entryOf, List.findIdx?_isSome, List.any_eq_true]
  exact ⟨_, defined, by simp [Command.defines?]⟩

theorem resumeAt_spec {cmds : List Command} {code : Nat → UInt16} {w : UInt16} {p : Nat}
    (found : resumeAt cmds code w = some p) : code p = w := by
  have starts := List.find?_some found
  exact eq_of_beq starts

def staticNames (cmds : List Command) : List String :=
  cmds.filterMap fun
    | .memory _ (.static name) => some name
    | _ => none

theorem mem_staticNames {cmds : List Command} {name : String} :
    name ∈ staticNames cmds ↔ ∃ access, .memory access (.static name) ∈ cmds := by
  constructor
  · intro static
    obtain ⟨cmd, member, named⟩ := List.mem_filterMap.mp static
    split at named
    · cases named
      exact ⟨_, member⟩
    · cases named
  · rintro ⟨access, member⟩
    exact List.mem_filterMap.mpr ⟨_, member, rfl⟩

/-! ### Steps -/

namespace State

variable (cmds : List Command) (code : Nat → UInt16)

/-- What a command does from the state `s` of the VM running `cmds`, whose code for the position
`p` starts at the word `code p`. A jump to a label or a call of a function that the program does
not define, and a return to a word where no position's code starts, have no next state. -/
def exec (s : State) : Command → Option State
  | .arithmetic op => some { s.arith op with pos := s.pos + 1 }
  | .memory .push slot => some { s.push (s.read slot) with pos := s.pos + 1 }
  | .memory .pop slot => some { s.pop slot with pos := s.pos + 1 }
  | .branch .label _ => some { s with pos := s.pos + 1 }
  | .branch .goto name => (labelAt cmds name).map fun p => { s with pos := p }
  | .branch .ifGoto name =>
    if s.get (s.get 0 - 1) = 0 then some { s.set 0 (s.get 0 - 1) with pos := s.pos + 1 }
    else (labelAt cmds name).map fun p => { s.set 0 (s.get 0 - 1) with pos := p }
  | .define _ locals => some { s.pushZeros locals.toNat with pos := s.pos + 1 }
  | .call name args _ =>
    (entryOf cmds name).map fun p => { s.call args.toNat (code (s.pos + 1)) with pos := p }
  | .ret => (resumeAt cmds code (s.get (s.get 1 - 5))).map fun p => { s.ret with pos := p }

/-- One step of the VM: the command at its position, none past the last command. -/
def step (s : State) : Option State :=
  cmds[s.pos]?.bind (exec cmds code s)

/-- The memory before the program starts: RAM and statics zero, `SP` at 256, and `LCL`, `ARG`,
`THIS`, `THAT` at -1 to -4. -/
def reset : State :=
  let zero : State := { ram := Vector.replicate ramSize 0, statics := fun _ => 0, pos := 0 }
  ((((zero.set 0 256).set 1 (-1)).set 2 (-2)).set 3 (-3)).set 4 (-4)

/-- The VM's start: `Sys.init` called without arguments from the reset memory, returning to the
first command. -/
def boot : Option State :=
  (entryOf cmds "Sys.init").map fun p => { reset.call 0 (code 0) with pos := p }

end State

/-! ### The memory map -/

/-- The RAM words the VM addresses: `SP`, `LCL`, `ARG`, `THIS`, `THAT` and the temp segment below
13, and the stack, the heap and the I/O maps from 256 up. Words 13 to 15 are the translator's own
and 16 to 255 hold the statics. -/
def Ordinary (x : UInt16) : Prop :=
  x.toNat % ramSize < 13 ∨ 256 ≤ x.toNat % ramSize

instance (x : UInt16) : Decidable (Ordinary x) :=
  inferInstanceAs (Decidable (_ ∨ _))

/-- Whether a command, run from the state `s`, keeps to the memory map: its stack lies from 256
up to the last RAM word, a frame slot it reads or writes is a word the VM addresses, and the
frame of a call or a return lies above word 255. -/
def Command.InMap (s : State) : Command → Prop
  | .arithmetic op =>
    (if op.isUnary then 257 else 258) ≤ (s.get 0).toNat ∧ (s.get 0).toNat ≤ 32767
  | .memory .push slot => 256 ≤ (s.get 0).toNat ∧ (s.get 0).toNat ≤ 32767 ∧ Ordinary (s.wordOf slot)
  | .memory .pop slot => 257 ≤ (s.get 0).toNat ∧ (s.get 0).toNat ≤ 32767 ∧ Ordinary (s.wordOf slot)
  | .branch .ifGoto _ => 257 ≤ (s.get 0).toNat ∧ (s.get 0).toNat ≤ 32767
  | .define _ locals => 256 ≤ (s.get 0).toNat ∧ (s.get 0).toNat + locals.toNat ≤ 32768
  | .call _ args _ => 256 + args.toNat ≤ (s.get 0).toNat ∧ (s.get 0).toNat + 5 ≤ 32767
  | .ret =>
    256 ≤ (s.get 2).toNat ∧ (s.get 2).toNat + 5 ≤ (s.get 1).toNat ∧
      (s.get 1).toNat < (s.get 0).toNat ∧ (s.get 0).toNat ≤ 32767
  | .branch .label _ | .branch .goto _ => True

instance (s : State) (cmd : Command) : Decidable (cmd.InMap s) := by
  unfold Command.InMap
  split <;> infer_instance

/-- Whether a command is a greater-than or less-than whose difference of the two top words
overflows sixteen bits. -/
def Command.Overflows (s : State) : Command → Prop
  | .arithmetic op =>
    (op = .gt ∨ op = .lt) ∧ SubOverflows (s.get (s.get 0 - 2)) (s.get (s.get 0 - 1))
  | _ => False

instance (s : State) (cmd : Command) : Decidable (cmd.Overflows s) := by
  unfold Command.Overflows
  split <;> infer_instance

/-- A step of the VM whose command keeps to the memory map and is no greater-than or less-than
whose difference overflows. -/
def SafeStep (cmds : List Command) (code : Nat → UInt16) (s t : State) : Prop :=
  s.step cmds code = some t ∧ ∀ cmd, cmds[s.pos]? = some cmd → cmd.InMap s ∧ ¬ cmd.Overflows s

end Hack.Vm
