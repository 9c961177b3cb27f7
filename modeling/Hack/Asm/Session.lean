import Hack.Asm.Stmt
import Hack.Asm.SymbolTable
import Hack.Diagnostic
import Hack.Text.Lines
/-! Assembling a program fed file by file into one address space and symbol table: feeding reads and
numbers the lines, then the label, variable and encoding passes, each stopping at its first error. -/

set_option autoImplicit false

namespace Hack.Asm

/-- A source line with what it says and, for an instruction, the index of its word. -/
structure Line where
  file : String
  /-- Zero-based index of the line in its file. -/
  index : Nat
  raw : String
  stmt : Option Stmt
  pc : Option UInt16
  deriving Repr

/-- An error located at a source line. -/
abbrev LineError := Located Error

/-- The error of a stored line. -/
def Line.fail (line : Line) (error : Error) : LineError :=
  Located.at line.file line.index line.raw error

/-- The state of an assembly in progress. -/
structure Session where
  lines : Array Line := #[]
  symbols : SymbolTable := SymbolTable.initial
  /-- The index of the next instruction word. -/
  pc : Nat := 0
  /-- The next RAM word for a variable. -/
  nextVar : Nat := variableBase
  deriving Repr

/-- The number of words the ROM holds. -/
def romSize : Nat := 32768

/-- The first RAM word that variables may not take: the screen map. -/
def variableLimit : Nat := 16384

namespace Session

/-- Reads one line; an instruction or a label after the last ROM word is refused. -/
def feedLine (s : Session) (file : String) (index : Nat) (raw : String) :
    Except LineError Session :=
  match Stmt.parse raw s.pc.toUInt16 with
  | .error e => .error (Located.at file index raw e)
  | .ok stmt =>
    let store (pc : Option UInt16) (next : Nat) : Session :=
      { s with lines := s.lines.push { file, index, raw, stmt, pc }, pc := next }
    match stmt with
    | some st =>
      if s.pc ≥ romSize then .error (Located.at file index raw .programTooLarge)
      else if st.isInst then .ok (store (some s.pc.toUInt16) (s.pc + 1))
      else .ok (store none s.pc)
    | none => .ok (store none s.pc)

/-- Reads numbered lines in order, stopping at the first error. -/
def feedFrom (file : String) : Session → List (Nat × String) → Session × Option LineError
  | s, [] => (s, none)
  | s, (index, raw) :: rest =>
    match s.feedLine file index raw with
    | .ok next => feedFrom file next rest
    | .error e => (s, some e)

/-- Reads every line of a source file. -/
def feed (s : Session) (file source : String) : Session × Option LineError :=
  feedFrom file s ((Text.lines source).zipIdx.map fun (raw, index) => (index, raw))

/-- Binds one line's label, if it has one. -/
def bindLabel (table : SymbolTable) (line : Line) : Except LineError SymbolTable :=
  match line.stmt with
  | some (.label name pc) =>
    match table.add name pc with
    | .ok next => .ok next
    | .error e => .error (line.fail e)
  | _ => .ok table

/-- Applies a step to each line in order, stopping at the first error with the state before it. -/
def walk {σ : Type} (step : σ → Line → Except LineError σ) :
    σ → List Line → σ × Option LineError
  | st, [] => (st, none)
  | st, line :: rest =>
    match step st line with
    | .ok next => walk step next rest
    | .error e => (st, some e)

/-- Pass one: binds every label to the word that follows it. -/
def resolveLabels (s : Session) : Session × Option LineError :=
  let (symbols, err) := walk bindLabel s.symbols s.lines.toList
  ({ s with symbols }, err)

/-- Gives a line's symbol operand the next free RAM word, if it has none yet. -/
def allocateLine (st : SymbolTable × Nat) (line : Line) : Except LineError (SymbolTable × Nat) :=
  let (table, next) := st
  match line.stmt with
  | some (.load (.symbol name)) =>
    if table.contains name then .ok st
    else if next ≥ variableLimit then .error (line.fail (.variableOverflow name))
    else match table.add name next.toUInt16 with
      | .ok table' => .ok (table', next + 1)
      | .error e => .error (line.fail e)
  | _ => .ok st

/-- Pass two: every unknown symbol operand becomes a variable. -/
def allocateVariables (s : Session) : Session × Option LineError :=
  let ((symbols, nextVar), err) := walk allocateLine (s.symbols, s.nextVar) s.lines.toList
  ({ s with symbols, nextVar }, err)

/-- The word of a statement under a symbol table; a label has none. -/
def resolveStmt (table : SymbolTable) : Stmt → Except Error (Option UInt16)
  | .load (.literal v) => .ok (some (Inst.load v).toWord)
  | .load (.symbol name) =>
    match table.get? name with
    | some v => .ok (some (Inst.load v).toWord)
    | none => .error (.undefinedSymbol name)
  | .compute d c j => .ok (some (Inst.compute d c j).toWord)
  | .label .. => .ok none

/-- Adds a line's word, if it has one. -/
def encodeLine (table : SymbolTable) (words : Array UInt16) (line : Line) :
    Except LineError (Array UInt16) :=
  match line.stmt with
  | some stmt =>
    match resolveStmt table stmt with
    | .ok (some w) => .ok (words.push w)
    | .ok none => .ok words
    | .error e => .error (line.fail e)
  | none => .ok words

/-- Pass three: one word per instruction. -/
def encode (s : Session) : Except LineError (Array UInt16) :=
  match walk (encodeLine s.symbols) #[] s.lines.toList with
  | (words, none) => .ok words
  | (_, some e) => .error e

/-- All three passes, stopping at the first error. -/
def assemble (s : Session) : Session × Except LineError (Array UInt16) :=
  match s.resolveLabels with
  | (s, some e) => (s, .error e)
  | (s, none) =>
    match s.allocateVariables with
    | (s, some e) => (s, .error e)
    | (s, none) => (s, s.encode)

end Session

/-- Assembles a single source file. -/
def assemble (file source : String) : Except LineError (Array UInt16) :=
  match ({} : Session).feed file source with
  | (_, some e) => .error e
  | (s, none) => s.assemble.2

/-- The binary text of a program: one line of sixteen binary digits per word. -/
def hackText (words : List UInt16) : String :=
  String.join (words.map fun w => Text.binary16 w ++ "\n")

end Hack.Asm
