import Hack.Vm.Scope
import Hack.Vm.Emitter
/-! Translating a VM program: its units read in order, one emitter for all, and the bootstrap first
when asked for. -/

set_option autoImplicit false

namespace Hack.Vm

/-- One VM file: its name prefixes statics, its path names it in errors. -/
structure SourceFile where
  name : String
  path : String
  source : String
  deriving Repr

/-- How a program is translated. -/
structure Options where
  bootstrap : Bool := true
  annotate : Bool := false
  deriving Repr

/-- An error located at a VM line. -/
abbrev LineError := Located Error

/-- Reads and writes the numbered lines of a unit in order. -/
def translateLines (path : String) :
    Scope → Emitter → List (Nat × String) → Except LineError Emitter
  | _, e, [] => .ok e
  | s, e, (index, raw) :: rest =>
    match s.step raw with
    | (.error err, _) => .error (Located.at path index raw err)
    | (.ok none, s') => translateLines path s' e rest
    | (.ok (some cmd), s') =>
      match e.write cmd with
      | .ok e' => translateLines path s' e' rest
      | .error err => .error (Located.at path index raw err)

/-- Translates one unit after what the emitter holds. -/
def translateUnit (e : Emitter) (unit : SourceFile) : Except LineError Emitter :=
  translateLines unit.path (Scope.init unit.name) e
    ((Text.lines unit.source).zipIdx.map fun (raw, index) => (index, raw))

/-- Translates units in order into one assembly text. -/
def translate (units : List SourceFile) (options : Options) : Except LineError String :=
  let start : Emitter := { annotate := options.annotate }
  let start := if options.bootstrap then start.bootstrap else start
  (units.foldlM translateUnit start).map Emitter.finish

end Hack.Vm
