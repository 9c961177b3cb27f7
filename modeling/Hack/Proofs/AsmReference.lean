import Hack.Asm.Session
/-! The reference assembler, without passes or a symbol table: labels bound to the index of the next
word wherever they stand, variables from 16 up in order of first use. -/

set_option autoImplicit false

namespace Hack.Asm

/-- A line of a program: the file it comes from, its zero-based index there and its text. -/
structure SourceLine where
  file : String
  index : Nat
  raw : String
  deriving Repr

/-- The lines of one source file. -/
def fileLines (file source : String) : List SourceLine :=
  (Text.lines source).zipIdx.map fun (raw, index) => ⟨file, index, raw⟩

/-- The lines of source files, in the order the files are fed. -/
def sourceLines (files : List (String × String)) : List SourceLine :=
  files.flatMap fun (file, source) => fileLines file source

/-- Applies `f` along a list, to each element together with the elements before it. -/
def mapAfter {α β : Type} (f : List α → α → β) : List α → List α → List β
  | _, [] => []
  | before, x :: rest => f before x :: mapAfter f (before ++ [x]) rest

/-- The first answer of a check run along a list, where each element is checked together with the
elements before it. -/
def firstIssue {α β : Type} (check : List α → α → Option β) : List α → List α → Option β
  | _, [] => none
  | before, x :: rest => (check before x).or (firstIssue check (before ++ [x]) rest)

/-- Whether the code of a line is an instruction: it is neither empty nor a label. -/
def isInstCode : List Char → Bool
  | [] => false
  | '(' :: _ => false
  | _ => true

/-- The number of instructions on some lines. -/
def wordCount (lines : List SourceLine) : Nat :=
  (lines.filter fun line => isInstCode (lineCode line.raw)).length

/-- What a line reads as after the lines `before`: its statement, labels bound to the index of
the next word. -/
def SourceLine.read (before : List SourceLine) (line : SourceLine) : Except Error (Option Stmt) :=
  Stmt.parse line.raw (wordCount before).toUInt16

/-- Why a line cannot be read after the lines `before`, if it cannot: it is malformed, or it is an
instruction or a label after the last ROM word is taken. -/
def readError (before : List SourceLine) (line : SourceLine) : Option LineError :=
  match line.read before with
  | .error e => some (Located.at line.file line.index line.raw e)
  | .ok (some _) =>
    if romSize ≤ wordCount before then
      some (Located.at line.file line.index line.raw .programTooLarge)
    else none
  | .ok none => none

/-- A line as kept once read after the lines `before`. -/
def SourceLine.toLine (before : List SourceLine) (line : SourceLine) : Line :=
  { file := line.file, index := line.index, raw := line.raw,
    stmt := match line.read before with
      | .ok stmt => stmt
      | .error _ => none,
    pc := if isInstCode (lineCode line.raw) then some (wordCount before).toUInt16 else none }

/-- The lines of a program as read. -/
def program (lines : List SourceLine) : List Line :=
  mapAfter SourceLine.toLine [] lines

/-- The labels of some lines with the words they are bound to, in order. -/
def labels (lines : List Line) : List (String × UInt16) :=
  lines.filterMap fun line =>
    match line.stmt with
    | some (.label name pc) => some (name, pc)
    | _ => none

/-- The names bound before any variable: the predefined ones, then the labels. -/
def bindings (lines : List Line) : List (String × UInt16) :=
  predefined ++ labels lines

/-- A label whose name is predefined or bound by a label before it, with the address the name
already has. -/
def labelClash (before : List Line) (line : Line) : Option LineError :=
  match line.stmt with
  | some (.label name _) =>
    ((bindings before).lookup name).map fun previous => line.fail (.redefinedLabel name previous)
  | _ => none

/-- The symbol operands of some lines, in order of use. -/
def operands (lines : List Line) : List String :=
  lines.filterMap fun line =>
    match line.stmt with
    | some (.load (.symbol name)) => some name
    | _ => none

/-- Whether nothing in a program binds a name. -/
def unbound (prog : List Line) (name : String) : Bool :=
  ((bindings prog).lookup name).isNone

/-- The variables that some lines of a program use: the operands nothing binds, each once, in
order of first use. -/
def variablesIn (prog lines : List Line) : List String :=
  ((operands lines).filter (unbound prog)).eraseDups

/-- The variables of a program. -/
def allVariables (prog : List Line) : List String :=
  variablesIn prog prog

/-- The address of a symbol: the word its label is bound to, else its predefined address, else
its RAM word as a variable. -/
def address (prog : List Line) (name : String) : Nat :=
  match (labels prog).lookup name, predefined.lookup name with
  | some a, _ => a.toNat
  | none, some a => a.toNat
  | none, none => variableBase + (allVariables prog).idxOf name

/-- A use of a variable whose RAM word would reach the screen map. -/
def overflow (prog : List Line) (line : Line) : Option LineError :=
  match line.stmt with
  | some (.load (.symbol name)) =>
    if unbound prog name ∧ variableLimit ≤ address prog name then
      some (line.fail (.variableOverflow name))
    else none
  | _ => none

/-- The word of a statement: a compute instruction is `111` followed by the codes of its
computation, destination and jump; a load holds its number or the address of its symbol; a label
takes no word. -/
def word (prog : List Line) : Stmt → Option UInt16
  | .load (.literal v) => some v
  | .load (.symbol name) => some (address prog name).toUInt16
  | .compute dest comp jump => some (0b111 * 8192 + comp.code * 64 + dest.code * 8 + jump.code)
  | .label .. => none

/-- The reference assembly of source files fed in order. -/
def assembleReference (files : List (String × String)) : Except LineError (List UInt16) :=
  let lines := sourceLines files
  match firstIssue readError [] lines with
  | some e => .error e
  | none =>
    let prog := program lines
    match firstIssue labelClash [] prog with
    | some e => .error e
    | none =>
      match prog.findSome? (overflow prog) with
      | some e => .error e
      | none => .ok (prog.filterMap fun line => line.stmt.bind (word prog))

namespace Session

/-- Feeds source files in order, stopping at the first that fails. -/
def feedFiles : Session → List (String × String) → Session × Option LineError
  | s, [] => (s, none)
  | s, (file, source) :: rest =>
    match s.feed file source with
    | (next, none) => next.feedFiles rest
    | (next, some e) => (next, some e)

end Session

/-- Feeds source files in order to a new assembler and runs its three passes. -/
def assembleFiles (files : List (String × String)) : Except LineError (List UInt16) :=
  match ({} : Session).feedFiles files with
  | (_, some e) => .error e
  | (s, none) => s.assemble.2.map Array.toList

end Hack.Asm
