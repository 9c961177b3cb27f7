import Hack.Isa.Inst
/-! The Hack machine: a program in ROM, 32768 words of RAM, A, D and the program counter, and one
step of it, with the emulator's halt detection for the final `@n` `0;JMP` loop. -/

set_option autoImplicit false

namespace Hack

/-- The number of RAM words. -/
def ramSize : Nat := 32768

/-- The number of ROM words. -/
def romCapacity : Nat := 32768

/-- The state of the machine. Its program fits the ROM: a program is only ever put there by a
load that checks it. -/
structure Machine where
  rom : Array UInt16 := #[]
  ram : Vector UInt16 ramSize := Vector.replicate ramSize 0
  a : UInt16 := 0
  d : UInt16 := 0
  pc : UInt16 := 0
  halted : Bool := false
  rom_size_le : rom.size ≤ romCapacity := by decide

namespace Machine

/-- The machine as the emulator creates it: no program, RAM and registers zero. -/
def initial : Machine := {}

/-- The RAM index of an address: the address modulo the RAM size. -/
def slot (addr : UInt16) : Fin ramSize :=
  ⟨addr.toNat % ramSize, Nat.mod_lt _ (by decide)⟩

/-- The RAM word at an address. -/
def get (m : Machine) (addr : UInt16) : UInt16 :=
  m.ram.get (slot addr)

/-- Writes a RAM word. -/
def set (m : Machine) (addr : UInt16) (value : UInt16) : Machine :=
  { m with ram := m.ram.set (slot addr) value }

/-- Whether the machine has stopped: halted, or past the last word of its program. -/
def isTerminated (m : Machine) : Bool :=
  m.halted || m.pc.toNat ≥ m.rom.size

/-- Whether a taken jump from `pc` to `target` closes the final loop: the target is the word
just before, and it loads its own address. -/
def isSelfLoop (m : Machine) (pc target : UInt16) : Bool :=
  pc > 0 && target == pc - 1 && m.rom[target.toNat]? == some (Inst.load target).toWord

/-- Runs a compute instruction at `pc`. -/
def compute (m : Machine) (pc : UInt16) (dest : Dest) (comp : Comp) (jump : Jump) : Machine :=
  let addr := m.a
  let out := comp.eval m.d addr (m.get addr)
  let m := if dest.m then m.set addr out else m
  let m := if dest.a then { m with a := out } else m
  let m := if dest.d then { m with d := out } else m
  if jump.taken out then { m with halted := m.isSelfLoop pc addr, pc := addr }
  else { m with pc := pc + 1 }

/-- Runs one instruction; answers the new state with the address and word run, or the
address and 0 past the program. -/
def exec (m : Machine) : Machine × UInt16 × UInt16 :=
  let pc := m.pc
  match m.rom[pc.toNat]? with
  | none => (m, pc, 0)
  | some word =>
    match Inst.ofWord? word with
    | some (.load v) => ({ m with a := v, pc := pc + 1 }, pc, word)
    | some (.compute dest comp jump) => (m.compute pc dest comp jump, pc, word)
    | none => ({ m with halted := true }, pc, word)

/-- Runs at most `fuel` more steps, counting them on top of `steps`, while not terminated. -/
def runFrom : Nat → Machine → Nat → Machine × Nat
  | 0, m, steps => (m, steps)
  | fuel + 1, m, steps => if m.isTerminated then (m, steps) else runFrom fuel m.exec.1 (steps + 1)

/-- Runs until terminated or `tmax` steps; answers the state and the steps taken. -/
def run (m : Machine) (tmax : Nat) : Machine × Nat :=
  runFrom tmax m 0

/-- The nonzero RAM words with their addresses, ascending. -/
def nonzeroRam (m : Machine) : List (Nat × UInt16) :=
  ((List.range ramSize).zip m.ram.toList).filter fun p => p.2 != 0

end Machine

end Hack
