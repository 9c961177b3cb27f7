/-! The nodes of a YAML document, each with the mark where it starts. -/

set_option autoImplicit false

namespace Hack.Yaml

/-- A position in the text: zero-based line and column. -/
structure Mark where
  line : Nat
  column : Nat
  deriving DecidableEq, Repr, Inhabited

/-- A mark as `line L column C`, one-based. -/
def Mark.text (m : Mark) : String :=
  "line " ++ toString (m.line + 1) ++ " column " ++ toString (m.column + 1)

/-- Whether a mark is the start of the text. -/
def Mark.isStart (m : Mark) : Bool :=
  m.line == 0 && m.column == 0

/-- ` at line L column C`, or nothing at the start of the text. -/
def Mark.suffix (m : Mark) : String :=
  if m.isStart then "" else " at " ++ m.text

/-- How a scalar was written: plain scalars are resolved to null, booleans and numbers;
quoted ones are always strings. -/
inductive ScalarStyle where
  | plain
  | quoted
  deriving DecidableEq, Repr

/-- A node of a document. -/
inductive Node where
  | scalar (value : String) (style : ScalarStyle) (mark : Mark)
  | seq (items : List Node) (mark : Mark)
  | map (entries : List (Node × Node)) (mark : Mark)
  deriving Repr

/-- Where a node starts. -/
def Node.mark : Node → Mark
  | .scalar _ _ m | .seq _ m | .map _ m => m

/-- A text that is not well-formed YAML: what is wrong and where, and what was being read. -/
structure SyntaxError where
  problem : String
  mark : Mark
  context : Option (String × Mark) := none
  deriving Repr

/-- The message of a syntax error. -/
def SyntaxError.message (e : SyntaxError) : String :=
  e.problem ++ e.mark.suffix ++
    match e.context with
    | none => ""
    | some (what, start) => ", " ++ what ++ (if start == e.mark then "" else start.suffix)

end Hack.Yaml
