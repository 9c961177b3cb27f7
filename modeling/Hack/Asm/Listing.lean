import Hack.Asm.Session
import Hack.Isa.Styled
/-! The listing of an assembled program: each source line with its word index and binary word, its
label's address, or itself, under a header per file. -/

set_option autoImplicit false

namespace Hack.Asm

open Text

/-- The coloured text of an operand, with the address a symbol resolved to. -/
def Operand.styled (table : SymbolTable) : Operand → String
  | .literal v => Styled.render [(Style.yellow, toString v.toNat)]
  | .symbol name =>
    match table.get? name with
    | some v => Styled.render [(Style.green, name), (Style.dim, "(" ++ toString v.toNat ++ ")")]
    | none => Styled.render [(Style.redUnderlined, name)]

/-- The coloured text of a statement. -/
def Stmt.styled (table : SymbolTable) : Stmt → String
  | .load operand =>
    Styled.render [(Style.plain, "    "), (Style.red, "@"), (Style.plain, operand.styled table)]
  | .compute dest comp jump => "    " ++ (Inst.compute dest comp jump).styled
  | .label name pc =>
    Styled.render [(Style.green, "(" ++ name ++ ")"), (Style.plain, " "),
      (Style.dim, "= " ++ toString pc.toNat)]

/-- The comment of a line, from its `//` on, dimmed; nothing if it has none. -/
def commentOf (raw : String) : String :=
  let code := Text.beforeComment raw.toList
  let comment := raw.toList.drop code.length
  if comment.isEmpty then "" else Styled.render [(Style.dim, String.ofList comment)]

/-- The listing line of a source line. -/
def Line.listing (table : SymbolTable) (line : Line) : String :=
  let number := padLeft 4 ' ' (toString (line.index + 1))
  let comment := commentOf line.raw
  match line.stmt, line.pc with
  | some stmt, some pc =>
    let bits := match Session.resolveStmt table stmt with
      | .ok (some w) => binary16 w
      | _ => Styled.render [(Style.alarm, "????????????????")]
    "[" ++ padLeft 4 '0' (toString pc.toNat) ++ "] " ++ bits ++ " | " ++ number ++ ": " ++
      stmt.styled table ++ " " ++ comment
  | some stmt, none =>
    String.ofList (List.replicate 24 ' ') ++ "| " ++ number ++ ": " ++ stmt.styled table ++ " " ++
      comment
  | none, _ => String.ofList (List.replicate 24 ' ') ++ "| " ++ number ++ ": " ++ comment

/-- The header that opens a file in the listing. -/
def fileHeader (file : String) : String :=
  String.ofList (List.replicate 24 '-') ++ "+------[" ++ file ++ "]" ++
    String.ofList (List.replicate (45 - file.utf8ByteSize) '-')

/-- The rule that closes the listing. -/
def listingRule : String :=
  "------------------------+-----------------------------------------------------"

/-- The listing of lines: a header at each change of file, a line per source line, a closing
rule; each line ends with a line feed. -/
def listing (table : SymbolTable) (lines : List Line) : String :=
  let step := fun (acc : String × Option String) (line : Line) =>
    let (text, current) := acc
    let header := if current == some line.file then "" else fileHeader line.file ++ "\n"
    (text ++ header ++ line.listing table ++ "\n", some line.file)
  (lines.foldl step ("", none)).1 ++ listingRule ++ "\n"

end Hack.Asm
