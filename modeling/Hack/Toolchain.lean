import Hack.Vm.Translate
import Hack.Asm.Session
import Hack.Machine.Rom
/-! The whole toolchain in one function: translate, assemble, load, preset and run. -/

set_option autoImplicit false

namespace Hack

/-- The failure of one stage of the toolchain. -/
inductive StageError where
  | translate (e : Vm.LineError)
  | assemble (e : Asm.LineError)
  | load (e : LoadError)

/-- What a run of the toolchain produces. -/
structure RunResult where
  machine : Machine
  steps : Nat
  /-- The length of the assembled program. -/
  words : Nat

/-- Writes RAM presets in order. -/
def Machine.preset (m : Machine) (presets : List (UInt16 × UInt16)) : Machine :=
  presets.foldl (fun m p => m.set p.1 p.2) m

/-- Translates, assembles, loads, presets and runs a VM program. -/
def runProgram (units : List Vm.SourceFile) (options : Vm.Options)
    (presets : List (UInt16 × UInt16)) (tmax : Nat) : Except StageError RunResult := do
  let asm ← (Vm.translate units options).mapError .translate
  let words ← (Asm.assemble "out.asm" asm).mapError .assemble
  let m ← (Machine.initial.loadRom words).mapError .load
  let (m, steps) := (m.preset presets).run tmax
  pure { machine := m, steps, words := words.size }

end Hack
