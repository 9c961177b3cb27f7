import Hack.Yaml.Node
/-! A reader for the YAML of configuration files: block and flow collections, plain and quoted
scalars, and comments. -/

set_option autoImplicit false

namespace Hack.Yaml

/-- The text being read, with the mark of every position and of the end. -/
structure Source where
  chars : Array Char
  marks : Array Mark

/-- The marks of a list of characters, starting from a mark, with the mark of the end last.
A line feed, a carriage return, or both together end a line. -/
def marksFrom : List Char → Mark → List Mark
  | [], m => [m]
  | '\r' :: '\n' :: rest, m =>
    m :: { m with column := m.column + 1 } :: marksFrom rest ⟨m.line + 1, 0⟩
  | '\n' :: rest, m => m :: marksFrom rest ⟨m.line + 1, 0⟩
  | '\r' :: rest, m => m :: marksFrom rest ⟨m.line + 1, 0⟩
  | _ :: rest, m => m :: marksFrom rest { m with column := m.column + 1 }

/-- The source of a text. -/
def Source.ofString (text : String) : Source :=
  { chars := text.toList.toArray, marks := (marksFrom text.toList ⟨0, 0⟩).toArray }

/-- A syntax error or a node with the position after it. -/
abbrev Read (α : Type) := Except SyntaxError α

namespace Source

variable (src : Source)

def get? (pos : Nat) : Option Char := src.chars[pos]?

def mark (pos : Nat) : Mark := (src.marks[pos]?).getD default

def atEnd (pos : Nat) : Bool := pos ≥ src.chars.size

/-- Whether a line break stands at a position. -/
def isBreakAt (pos : Nat) : Bool :=
  src.get? pos == some '\n' || src.get? pos == some '\r'

/-- Whether a position holds a space, a tab, a line break or the end. -/
def blankOrEnd (pos : Nat) : Bool :=
  match src.get? pos with
  | none => true
  | some c => c == ' ' || c == '\t' || c == '\n' || c == '\r'

/-- Skips spaces and tabs. -/
def skipWhite (pos : Nat) : Nat :=
  if h : pos < src.chars.size then
    let c := src.chars[pos]
    if c == ' ' || c == '\t' then skipWhite (pos + 1) else pos
  else pos
termination_by src.chars.size - pos

/-- Skips to the next line break or the end. -/
def skipToBreak (pos : Nat) : Nat :=
  if h : pos < src.chars.size then
    let c := src.chars[pos]
    if c == '\n' || c == '\r' then pos else skipToBreak (pos + 1)
  else pos
termination_by src.chars.size - pos

/-- Skips blanks, comments and line breaks. -/
def skipBlankFrom : Nat → Nat → Nat
  | 0, pos => pos
  | fuel + 1, pos =>
    let p := src.skipWhite pos
    match src.get? p with
    | some '#' => skipBlankFrom fuel (src.skipToBreak p)
    | some '\n' | some '\r' => skipBlankFrom fuel (p + 1)
    | _ => p

def skipBlank (pos : Nat) : Nat :=
  src.skipBlankFrom (src.chars.size + 1) pos

/-- Whether only blanks or a comment follow on the line. -/
def lineEndsAt (pos : Nat) : Bool :=
  let p := src.skipWhite pos
  match src.get? p with
  | none | some '\n' | some '\r' | some '#' => true
  | _ => false

/-- The characters between two positions. -/
def slice (start stop : Nat) : String :=
  String.ofList ((src.chars.extract start stop).toList)

/-- Whether a character ends a plain scalar inside a flow collection. -/
def isFlowIndicator (c : Char) : Bool :=
  c == ',' || c == '[' || c == ']' || c == '{' || c == '}'

/-- The end of a plain scalar's characters on its line: before a line break, before `:` that is
followed by a blank, before ` #`, and inside a flow collection before a flow indicator. -/
def plainEnd (flow : Bool) (start pos : Nat) : Nat :=
  if h : pos < src.chars.size then
    let c := src.chars[pos]
    let next := src.get? (pos + 1)
    let colonStops := c == ':' &&
      (src.blankOrEnd (pos + 1) || (flow && next.any isFlowIndicator))
    let commentStops := c == '#' && pos > start &&
      (src.get? (pos - 1) == some ' ' || src.get? (pos - 1) == some '\t')
    if c == '\n' || c == '\r' || colonStops || commentStops || (flow && isFlowIndicator c) then pos
    else plainEnd flow start (pos + 1)
  else pos
termination_by src.chars.size - pos

/-- A plain scalar from a position: its text with trailing blanks removed, and where it ends. -/
def plain (flow : Bool) (pos : Nat) : Node × Nat :=
  let stop := src.plainEnd flow pos pos
  let text := (src.chars.extract pos stop).toList.reverse.dropWhile (fun c => c == ' ' || c == '\t')
  (.scalar (String.ofList text.reverse) .plain (src.mark pos), stop)

/-- The value of a hexadecimal digit. -/
def hexValue (c : Char) : Option Nat :=
  if '0' ≤ c ∧ c ≤ '9' then some (c.toNat - '0'.toNat)
  else if 'a' ≤ c ∧ c ≤ 'f' then some (c.toNat - 'a'.toNat + 10)
  else if 'A' ≤ c ∧ c ≤ 'F' then some (c.toNat - 'A'.toNat + 10)
  else none

/-- The character of `count` hexadecimal digits at a position. -/
def hexChar (pos count : Nat) : Option Char :=
  let digits := (src.chars.extract pos (pos + count)).toList
  if digits.length != count then none
  else (digits.mapM hexValue).map fun ds => Char.ofNat (ds.foldl (fun acc d => acc * 16 + d) 0)

/-- The character a one-letter escape stands for. -/
def escapeOf : Char → Option Char
  | '0' => some '\x00'
  | 'a' => some '\x07'
  | 'b' => some '\x08'
  | 't' => some '\t'
  | '\t' => some '\t'
  | 'n' => some '\n'
  | 'v' => some '\x0b'
  | 'f' => some '\x0c'
  | 'r' => some '\r'
  | 'e' => some '\x1b'
  | ' ' => some ' '
  | '"' => some '"'
  | '/' => some '/'
  | '\\' => some '\\'
  | 'N' => some '\u0085'
  | '_' => some '\u00a0'
  | 'L' => some '\u2028'
  | 'P' => some '\u2029'
  | _ => none

/-- A syntax error found while reading a construct that started at `start`. -/
def within (problem : String) (pos : Nat) (what : String) (start : Nat) : SyntaxError :=
  ⟨problem, src.mark pos, some (what, src.mark start)⟩

/-- Reads the rest of a quoted scalar opened at `start` with `quote`; a line break inside reads
as a space, and the blanks that start the next line are dropped (`folding`). -/
def quotedFrom (quote : Char) (start : Nat) (folding : Bool) (acc : List Char) (pos : Nat) :
    Read (Node × Nat) :=
  if h : pos < src.chars.size then
    let c := src.chars[pos]
    if c == quote then
      if quote == '\'' && src.get? (pos + 1) == some '\'' then
        quotedFrom quote start false ('\'' :: acc) (pos + 2)
      else .ok (.scalar (String.ofList acc.reverse) .quoted (src.mark start), pos + 1)
    else if quote == '"' && c == '\\' then
      match src.get? (pos + 1) with
      | some 'x' => match src.hexChar (pos + 2) 2 with
        | some e => quotedFrom quote start false (e :: acc) (pos + 4)
        | none => .error (src.within "did not find expected hexdecimal number" (pos + 2)
          "while parsing a quoted scalar" start)
      | some 'u' => match src.hexChar (pos + 2) 4 with
        | some e => quotedFrom quote start false (e :: acc) (pos + 6)
        | none => .error (src.within "did not find expected hexdecimal number" (pos + 2)
          "while parsing a quoted scalar" start)
      | some 'U' => match src.hexChar (pos + 2) 8 with
        | some e => quotedFrom quote start false (e :: acc) (pos + 10)
        | none => .error (src.within "did not find expected hexdecimal number" (pos + 2)
          "while parsing a quoted scalar" start)
      | some e => match escapeOf e with
        | some r => quotedFrom quote start false (r :: acc) (pos + 2)
        | none => .error (src.within "found unknown escape character" (pos + 1)
          "while parsing a quoted scalar" start)
      | none => quotedFrom quote start false acc (pos + 1)
    else if c == '\n' || c == '\r' then quotedFrom quote start true (' ' :: acc) (pos + 1)
    else if folding && (c == ' ' || c == '\t') then quotedFrom quote start true acc (pos + 1)
    else quotedFrom quote start false (c :: acc) (pos + 1)
  else .error (src.within "found unexpected end of stream" pos
          "while scanning a quoted scalar" start)
termination_by src.chars.size - pos

/-- A quoted scalar starting at its opening quote. -/
def quoted (pos : Nat) : Read (Node × Nat) :=
  match src.get? pos with
  | some q => src.quotedFrom q pos false [] (pos + 1)
  | none => .error { problem := "found unexpected end of stream", mark := src.mark pos }

/-- An empty plain scalar at a position: the value left out. -/
def empty (pos : Nat) : Node :=
  .scalar "" .plain (src.mark pos)

/-- Running out of budget. -/
def exhausted (pos : Nat) : SyntaxError :=
  { problem := "recursion limit exceeded", mark := src.mark pos }

mutual

/-- A node inside a flow collection. -/
def flowNode : Nat → Nat → Read (Node × Nat)
  | 0, pos => .error (src.exhausted pos)
  | fuel + 1, pos =>
    let p := src.skipBlank pos
    match src.get? p with
    | some '[' => flowSeq fuel (p + 1) p []
    | some '{' => flowMap fuel (p + 1) p []
    | some '"' | some '\'' => src.quoted p
    | _ => .ok (src.plain true p)

/-- The items of a flow sequence opened at `start`, after those read. -/
def flowSeq : Nat → Nat → Nat → List Node → Read (Node × Nat)
  | 0, pos, _, _ => .error (src.exhausted pos)
  | fuel + 1, pos, start, items =>
    let p := src.skipBlank pos
    let missing : SyntaxError := (src.within "did not find expected ',' or ']'" p
          "while parsing a flow sequence" start)
    match src.get? p with
    | none => .error missing
    | some ']' => .ok (.seq items.reverse (src.mark start), p + 1)
    | some _ => do
      let (item, q) ← flowNode fuel p
      let r := src.skipBlank q
      match src.get? r with
      | some ',' => flowSeq fuel (r + 1) start (item :: items)
      | some ']' => .ok (.seq (item :: items).reverse (src.mark start), r + 1)
      | _ => .error { missing with mark := src.mark r }

/-- The entries of a flow mapping opened at `start`, after those read. -/
def flowMap : Nat → Nat → Nat → List (Node × Node) → Read (Node × Nat)
  | 0, pos, _, _ => .error (src.exhausted pos)
  | fuel + 1, pos, start, entries =>
    let p := src.skipBlank pos
    let missing : SyntaxError := (src.within "did not find expected ',' or '\x7d'" p
          "while parsing a flow mapping" start)
    match src.get? p with
    | none => .error missing
    | some '}' => .ok (.map entries.reverse (src.mark start), p + 1)
    | some _ => do
      let (key, q) ← if src.get? p == some ':' then pure (src.empty p, p) else flowNode fuel p
      let q := src.skipBlank q
      let (value, r) ← if src.get? q == some ':' then
          let v := src.skipBlank (q + 1)
          match src.get? v with
          | some ',' | some '}' => pure (src.empty v, v)
          | _ => flowNode fuel v
        else pure (src.empty q, q)
      let r := src.skipBlank r
      match src.get? r with
      | some ',' => flowMap fuel (r + 1) start ((key, value) :: entries)
      | some '}' => .ok (.map ((key, value) :: entries).reverse (src.mark start), r + 1)
      | _ => .error { missing with mark := src.mark r }

end

/-- A budget for reading the whole text. -/
def budget : Nat := 2 * src.chars.size + 16

/-- Whether a simple key followed by `: ` starts at a position. -/
def startsKey (pos : Nat) : Bool :=
  let afterKey := match src.get? pos with
    | some '"' | some '\'' => (src.quoted pos).toOption.map (·.2)
    | some '[' | some '{' => none
    | _ => some (src.plainEnd false pos pos)
  match afterKey with
  | some q =>
    let q := src.skipWhite q
    src.get? q == some ':' && src.blankOrEnd (q + 1)
  | none => false

/-- A value written on the rest of its line: a flow collection or a scalar, and nothing after it
but blanks or a comment. -/
def inlineValue (pos : Nat) : Read (Node × Nat) := do
  let (node, q) ← match src.get? pos with
    | some '[' | some '{' => src.flowNode src.budget pos
    | some '"' | some '\'' => src.quoted pos
    | _ => pure (src.plain false pos)
  if src.lineEndsAt q then pure (node, src.skipWhite q)
  else
    let r := src.skipWhite q
    if src.get? r == some ':' then
      .error { problem := "mapping values are not allowed in this context", mark := src.mark r }
    else .error { problem := "did not find expected key", mark := src.mark r }

mutual

/-- A node in block context whose column must exceed `parent`; anything less indented leaves the
value out. -/
def blockNode : Nat → Nat → Int → Read (Node × Nat)
  | 0, pos, _ => .error (src.exhausted pos)
  | fuel + 1, pos, parent =>
    let p := src.skipBlank pos
    if src.atEnd p || ((src.mark p).column : Int) ≤ parent then .ok (src.empty pos, pos)
    else
      let column := (src.mark p).column
      if src.get? p == some '-' && src.blankOrEnd (p + 1) then blockSeq fuel p column p []
      else if src.startsKey p then blockMap fuel p column p []
      else src.inlineValue p

/-- The entries of a block mapping at a column, starting at `start`, after those read. -/
def blockMap : Nat → Nat → Nat → Nat → List (Node × Node) → Read (Node × Nat)
  | 0, pos, _, _, _ => .error (src.exhausted pos)
  | fuel + 1, pos, column, start, entries =>
    let p := src.skipBlank pos
    let done : Read (Node × Nat) := .ok (.map entries.reverse (src.mark start), p)
    if src.atEnd p || (src.mark p).column < column then done
    else if (src.mark p).column > column || !src.startsKey p then
      .error (src.within "did not find expected key" p
          "while parsing a block mapping" start)
    else do
      let (key, q) ← match src.get? p with
        | some '"' | some '\'' => src.quoted p
        | _ => pure (src.plain false p)
      let colon := src.skipWhite q
      let r := src.skipWhite (colon + 1)
      let (value, t) ← if src.lineEndsAt r then
          let s := src.skipBlank r
          if !src.atEnd s && (src.mark s).column == column && src.get? s == some '-' &&
              src.blankOrEnd (s + 1) then blockSeq fuel s column s []
          else
            match blockNode fuel r column with
            | .ok (node, t) => if t == r then pure (src.empty (colon + 1), r) else pure (node, t)
            | .error e => .error e
        else src.inlineValue r
      blockMap fuel t column start ((key, value) :: entries)

/-- The items of a block sequence at a column, starting at `start`, after those read. -/
def blockSeq : Nat → Nat → Nat → Nat → List Node → Read (Node × Nat)
  | 0, pos, _, _, _ => .error (src.exhausted pos)
  | fuel + 1, pos, column, start, items =>
    let p := src.skipBlank pos
    let done : Read (Node × Nat) := .ok (.seq items.reverse (src.mark start), p)
    if src.atEnd p || (src.mark p).column < column then done
    else if (src.mark p).column == column then
      if src.get? p == some '-' && src.blankOrEnd (p + 1) then do
        let r := src.skipWhite (p + 1)
        let (item, t) ← match blockNode fuel r column with
          | .ok (node, t) => if t == r then pure (src.empty (p + 1), r) else pure (node, t)
          | .error e => .error e
        blockSeq fuel t column start (item :: items)
      else done
    else .error (src.within "did not find expected '-' indicator" p
          "while parsing a block collection" start)

end

end Source

/-- Reads the document of a text; a text with nothing but blanks and comments has none. -/
def readDocument (text : String) : Read (Option Node) := do
  let src := Source.ofString text
  let p := src.skipBlank 0
  let p :=
    if src.slice p (p + 3) == "---" && src.blankOrEnd (p + 3) then src.skipBlank (p + 3) else p
  if src.atEnd p then
    if p == src.skipBlank 0 then return none else return some (src.empty p)
  let (node, q) ← src.blockNode src.budget p (-1)
  let r := src.skipBlank q
  if src.atEnd r then return some node
  else throw { problem := "did not find expected <document start>", mark := src.mark r }

end Hack.Yaml
