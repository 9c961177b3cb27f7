import Hack.Proofs.StatementText
/-! The grammar of assembly lines, shape by shape, and that reading a line gives exactly what it
assigns. -/

set_option autoImplicit false

namespace Hack

/-! ### Spellings of the fields -/

/-- How a destination is written before its computation: its mnemonic and `=`, or nothing at all
when no register is written. -/
def Dest.Spelling (dest : Dest) (text : List Char) : Prop :=
  text = dest.mnemonic.toList ++ ['='] ∨ (dest = Dest.none ∧ text = [])

/-- How a computation is written: its mnemonic, or a commutative one's other operand order. -/
def Comp.Spelling (comp : Comp) (text : List Char) : Prop :=
  text = comp.mnemonic.toList ∨ comp.swappedMnemonic? = some (String.ofList text)

/-- How a jump is written after its computation: `;` and its mnemonic, or nothing at all when it
never jumps. -/
def Jump.Spelling (jump : Jump) (text : List Char) : Prop :=
  text = ';' :: jump.mnemonic.toList ∨ (jump = Jump.none ∧ text = [])

theorem Dest.ofMnemonic?_eq_some_iff {text : String} {dest : Dest} :
    Dest.ofMnemonic? text = some dest ↔ text = dest.mnemonic := by
  constructor
  · intro found
    have named := List.find?_some found
    exact (beq_iff_eq.mp named).symm
  · rintro rfl
    exact ofMnemonic?_mnemonic dest

theorem Jump.ofMnemonic?_eq_some_iff {text : String} {jump : Jump} :
    Jump.ofMnemonic? text = some jump ↔ text = jump.mnemonic := by
  constructor
  · intro found
    have named := List.find?_some found
    exact (beq_iff_eq.mp named).symm
  · rintro rfl
    exact ofMnemonic?_mnemonic jump

theorem Comp.ofMnemonic?_eq_some_iff {text : String} {comp : Comp} :
    Comp.ofMnemonic? text = some comp ↔ text = comp.mnemonic ∨ comp.swappedMnemonic? = some text := by
  constructor
  · intro found
    have named := List.find?_some found
    simp only [Bool.or_eq_true, beq_iff_eq] at named
    exact named.imp Eq.symm id
  · rintro (rfl | swapped)
    · exact ofMnemonic?_mnemonic comp
    · cases comp <;> cases swapped <;> rfl

theorem Dest.ofMnemonic?_empty : Dest.ofMnemonic? "" = some Dest.none := rfl

theorem Jump.ofMnemonic?_empty : Jump.ofMnemonic? "" = some Jump.none := rfl

/-- The other operand order of a computation is a plain text, like its mnemonic. -/
theorem plainText_swappedMnemonic {comp : Comp} {text : String}
    (swapped : comp.swappedMnemonic? = some text) : PlainText text := by
  cases comp <;> cases swapped <;> decide

theorem Comp.Spelling.plain {comp : Comp} {text : List Char} (spelled : comp.Spelling text) :
    ∀ c ∈ text, PlainChar c := by
  rcases spelled with rfl | swapped
  · exact plainChar_mnemonic_comp comp
  · have plain := plainText_swappedMnemonic swapped
    rwa [PlainText, String.toList_ofList] at plain

theorem Comp.Spelling.ofMnemonic? {comp : Comp} {text : List Char} (spelled : comp.Spelling text) :
    Comp.ofMnemonic? (String.ofList text) = some comp := by
  rcases spelled with rfl | swapped
  · rw [String.ofList_toList]
    exact ofMnemonic?_mnemonic comp
  · exact Comp.ofMnemonic?_eq_some_iff.mpr (.inr swapped)

theorem Dest.Spelling.not_mem_semi {dest : Dest} {text : List Char} (spelled : dest.Spelling text) :
    ';' ∉ text := by
  rcases spelled with rfl | ⟨-, rfl⟩
  · simp only [List.mem_append, List.mem_singleton, not_or]
    exact ⟨fun member => (plainChar_mnemonic_dest dest _ member).2.1 rfl, by decide⟩
  · simp

theorem Jump.Spelling.not_mem_eq {jump : Jump} {text : List Char} (spelled : jump.Spelling text) :
    '=' ∉ text := by
  rcases spelled with rfl | ⟨-, rfl⟩
  · simp only [List.mem_cons, not_or]
    exact ⟨by decide, fun member => (plainChar_mnemonic_jump jump _ member).1 rfl⟩
  · simp

end Hack

namespace Hack.Text

/-! ### Cutting at the first separator -/

/-- The first `sep` of `cs` stands between `before` and `after`. -/
def FirstCut (sep : Char) (cs before after : List Char) : Prop :=
  cs = before ++ sep :: after ∧ sep ∉ before

theorem splitAtChar_of_firstCut {sep : Char} {cs before after : List Char}
    (cut : FirstCut sep cs before after) : splitAtChar sep cs = some (before, after) := by
  obtain ⟨rfl, absent⟩ := cut
  exact splitAtChar_append_cons after absent

theorem firstCut_of_splitAtChar {sep : Char} {cs before after : List Char}
    (found : splitAtChar sep cs = some (before, after)) : FirstCut sep cs before after := by
  induction cs generalizing before after with
  | nil => cases found
  | cons c rest ih =>
    rw [splitAtChar] at found
    split at found
    · rename_i same
      cases found
      exact ⟨by rw [same]; rfl, List.not_mem_nil⟩
    · rename_i differ
      obtain ⟨⟨b, a⟩, inner, joined⟩ := Option.map_eq_some_iff.mp found
      cases joined
      obtain ⟨split, absent⟩ := ih inner
      refine ⟨by rw [split]; rfl, fun member => ?_⟩
      rcases List.mem_cons.mp member with same | later
      · exact differ same.symm
      · exact absent later

theorem not_mem_of_splitAtChar {sep : Char} {cs : List Char} (missing : splitAtChar sep cs = none) :
    sep ∉ cs := by
  induction cs with
  | nil => exact List.not_mem_nil
  | cons c rest ih =>
    rw [splitAtChar] at missing
    split at missing
    · cases missing
    · rename_i differ
      intro member
      rcases List.mem_cons.mp member with same | later
      · exact differ same.symm
      · exact ih (Option.map_eq_none_iff.mp missing) later

/-- Every text is cut at its first `sep`, or has none. -/
theorem firstCut_or_not_mem (sep : Char) (cs : List Char) :
    (∃ before after, FirstCut sep cs before after) ∨ sep ∉ cs := by
  cases found : splitAtChar sep cs with
  | none => exact .inr (not_mem_of_splitAtChar found)
  | some parts => exact .inl ⟨parts.1, parts.2, firstCut_of_splitAtChar found⟩

end Hack.Text

namespace Hack.Asm

open Text

/-! ### The grammar -/

/-- The first `=` of a code stands after its first `;`. -/
def Misordered (code : List Char) : Prop :=
  ∃ eq semi, firstIndex '=' code = some eq ∧ firstIndex ';' code = some semi ∧ semi < eq

/-- A code is a destination, a computation and a jump, each spelled as its field allows. -/
def Spells (code : List Char) (dest : Dest) (comp : Comp) (jump : Jump) : Prop :=
  ∃ D C J, code = D ++ C ++ J ∧ dest.Spelling D ∧ comp.Spelling C ∧ jump.Spelling J

/-- What the code of a compute instruction reads as. -/
inductive ComputeGrammar : List Char → Except Error Stmt → Prop
  | compute {code : List Char} {dest : Dest} {comp : Comp} {jump : Jump}
      (spells : Spells code dest comp jump) : ComputeGrammar code (.ok (.compute dest comp jump))
  | misordered {code : List Char} (misordered : Misordered code) :
      ComputeGrammar code (.error (.misorderedCompute (String.ofList code)))
  /-- Any other code is refused with what stands before its first `=` (nothing without one), what
  follows up to the next `;`, and what follows that (nothing without one). -/
  | invalid {code dest rest comp jump : List Char}
      (destCut : FirstCut '=' code dest rest ∨ ('=' ∉ code ∧ dest = [] ∧ rest = code))
      (jumpCut : FirstCut ';' rest comp jump ∨ (';' ∉ rest ∧ comp = rest ∧ jump = []))
      (ordered : ¬ Misordered code) (unspelled : ∀ d c j, ¬ Spells code d c j) :
      ComputeGrammar code (.error (.invalidCombination (String.ofList dest) (String.ofList comp)
        (String.ofList jump)))

/-- What the code of a line reads as, a label bound to the word `pc`. -/
inductive LineGrammar (pc : UInt16) : List Char → Except Error (Option Stmt) → Prop
  | empty : LineGrammar pc [] (.ok none)
  | literal {x : List Char} (digits : isDigits x = true) (fits : digitsValue 10 x ≤ addressMax) :
      LineGrammar pc ('@' :: x) (.ok (some (.load (.literal (digitsValue 10 x).toUInt16))))
  | outOfRange {x : List Char} (digits : isDigits x = true) (large : addressMax < digitsValue 10 x) :
      LineGrammar pc ('@' :: x) (.error (.addressOutOfRange (String.ofList x)))
  | symbol {x : List Char} (symbol : isSymbolChars x = true) :
      LineGrammar pc ('@' :: x) (.ok (some (.load (.symbol (String.ofList x)))))
  | invalidAddress {x : List Char} (notDigits : isDigits x = false)
      (notSymbol : isSymbolChars x = false) :
      LineGrammar pc ('@' :: x) (.error (.invalidAddress (String.ofList x)))
  | label {name : List Char} (symbol : isSymbolChars name = true) :
      LineGrammar pc ('(' :: (name ++ [')'])) (.ok (some (.label (String.ofList name) pc)))
  | invalidLabel {rest : List Char}
      (unnamed : ∀ name, rest = name ++ [')'] → isSymbolChars name = false) :
      LineGrammar pc ('(' :: rest) (.error (.invalidLabel (String.ofList ('(' :: rest))))
  | compute {c : Char} {rest : List Char} {result : Except Error Stmt} (notLoad : c ≠ '@')
      (notLabel : c ≠ '(') (reads : ComputeGrammar (c :: rest) result) :
      LineGrammar pc (c :: rest) (result.map some)

/-! ### Compute instructions -/

theorem parseCompute_of_misordered {code : List Char} (misordered : Misordered code) :
    parseCompute code = .error (.misorderedCompute (String.ofList code)) := by
  obtain ⟨eq, semi, atEq, atSemi, after⟩ := misordered
  unfold parseCompute
  rw [atEq, atSemi]
  exact if_pos after

theorem parseCompute_of_ordered {code : List Char} (ordered : ¬ Misordered code) :
    parseCompute code = parseCompute.parseParts code := by
  unfold parseCompute
  split
  · rename_i eq semi atEq atSemi
    exact if_neg fun after => ordered ⟨eq, semi, atEq, atSemi, after⟩
  · rfl

/-- A spelled destination ends at the code's first `=`, so no `;` comes before it. -/
theorem ordered_of_destSpelling {dest : Dest} {D rest : List Char} (spelled : dest.Spelling D)
    (plain : '=' ∉ rest) : ¬ Misordered (D ++ rest) := by
  rintro ⟨eq, semi, atEq, atSemi, after⟩
  have behind := length_le_of_firstIndex spelled.not_mem_semi atSemi
  rcases spelled with rfl | ⟨-, rfl⟩
  · have noEq : '=' ∉ dest.mnemonic.toList := fun member =>
      (plainChar_mnemonic_dest dest _ member).1 rfl
    rw [List.append_assoc, List.singleton_append, firstIndex_append_cons _ noEq] at atEq
    cases atEq
    simp only [List.length_append, List.length_singleton] at behind
    omega
  · rw [List.nil_append, firstIndex_of_not_mem plain] at atEq
    cases atEq

theorem splitAtChar_destSpelling {dest : Dest} {D rest : List Char} (spelled : dest.Spelling D)
    (plain : '=' ∉ rest) :
    (splitAtChar '=' (D ++ rest)).getD ([], D ++ rest) = (dest.mnemonic.toList, rest) := by
  rcases spelled with rfl | ⟨rfl, rfl⟩
  · have noEq : '=' ∉ dest.mnemonic.toList := fun member =>
      (plainChar_mnemonic_dest dest _ member).1 rfl
    rw [List.append_assoc, List.singleton_append, splitAtChar_append_cons _ noEq]
    rfl
  · rw [List.nil_append, splitAtChar_of_not_mem plain]
    rfl

theorem splitAtChar_jumpSpelling {jump : Jump} {C J : List Char} (spelled : jump.Spelling J)
    (plain : ';' ∉ C) : (splitAtChar ';' (C ++ J)).getD (C ++ J, []) = (C, jump.mnemonic.toList) := by
  rcases spelled with rfl | ⟨rfl, rfl⟩
  · rw [splitAtChar_append_cons _ plain]
    rfl
  · rw [List.append_nil, splitAtChar_of_not_mem plain]
    rfl

/-- A code that spells its three fields reads as the compute instruction they name. -/
theorem parseCompute_of_spells {code : List Char} {dest : Dest} {comp : Comp} {jump : Jump}
    (spells : Spells code dest comp jump) : parseCompute code = .ok (.compute dest comp jump) := by
  obtain ⟨D, C, J, rfl, spelledD, spelledC, spelledJ⟩ := spells
  have plainC := spelledC.plain
  have noEq : '=' ∉ C ++ J := by
    rw [List.mem_append, not_or]
    exact ⟨fun member => (plainC _ member).1 rfl, spelledJ.not_mem_eq⟩
  have noSemi : ';' ∉ C := fun member => (plainC _ member).2.1 rfl
  rw [List.append_assoc, parseCompute_of_ordered (ordered_of_destSpelling spelledD noEq)]
  simp only [parseCompute.parseParts, splitAtChar_destSpelling spelledD noEq, splitAtChar_jumpSpelling spelledJ noSemi,
    String.ofList_toList, Dest.ofMnemonic?_mnemonic, spelledC.ofMnemonic?,
    Jump.ofMnemonic?_mnemonic]

/-- A field read from its part of the code is spelled there: a destination's part is followed by
the `=` it was cut at, or the code has no `=` and the destination is none. -/
theorem destSpelling_of_cut {code dest rest : List Char} {d : Dest}
    (cut : FirstCut '=' code dest rest ∨ ('=' ∉ code ∧ dest = [] ∧ rest = code))
    (named : Dest.ofMnemonic? (String.ofList dest) = some d) :
    ∃ D, code = D ++ rest ∧ d.Spelling D := by
  rcases cut with ⟨split, -⟩ | ⟨-, rfl, rfl⟩
  · have spelled : dest = d.mnemonic.toList := by
      rw [← Dest.ofMnemonic?_eq_some_iff.mp named, String.toList_ofList]
    refine ⟨d.mnemonic.toList ++ ['='], ?_, .inl rfl⟩
    rw [split, spelled, List.append_assoc, List.singleton_append]
  · rw [String.ofList_nil, Dest.ofMnemonic?_empty] at named
    exact ⟨[], rfl, .inr ⟨(Option.some.inj named).symm, rfl⟩⟩

theorem jumpSpelling_of_cut {rest comp jump : List Char} {j : Jump}
    (cut : FirstCut ';' rest comp jump ∨ (';' ∉ rest ∧ comp = rest ∧ jump = []))
    (named : Jump.ofMnemonic? (String.ofList jump) = some j) :
    ∃ J, rest = comp ++ J ∧ j.Spelling J := by
  rcases cut with ⟨split, -⟩ | ⟨-, rfl, rfl⟩
  · have spelled : jump = j.mnemonic.toList := by
      rw [← Jump.ofMnemonic?_eq_some_iff.mp named, String.toList_ofList]
    exact ⟨';' :: j.mnemonic.toList, by rw [split, spelled], .inl rfl⟩
  · rw [String.ofList_nil, Jump.ofMnemonic?_empty] at named
    exact ⟨[], (List.append_nil _).symm, .inr ⟨(Option.some.inj named).symm, rfl⟩⟩

theorem spells_of_parts {code dest rest comp jump : List Char} {d : Dest} {c : Comp} {j : Jump}
    (destCut : FirstCut '=' code dest rest ∨ ('=' ∉ code ∧ dest = [] ∧ rest = code))
    (jumpCut : FirstCut ';' rest comp jump ∨ (';' ∉ rest ∧ comp = rest ∧ jump = []))
    (namedDest : Dest.ofMnemonic? (String.ofList dest) = some d)
    (namedComp : Comp.ofMnemonic? (String.ofList comp) = some c)
    (namedJump : Jump.ofMnemonic? (String.ofList jump) = some j) : Spells code d c j := by
  obtain ⟨D, splitDest, spelledD⟩ := destSpelling_of_cut destCut namedDest
  obtain ⟨J, splitJump, spelledJ⟩ := jumpSpelling_of_cut jumpCut namedJump
  have spelledC : c.Spelling comp := by
    rcases Comp.ofMnemonic?_eq_some_iff.mp namedComp with same | swapped
    · exact .inl (by rw [← same, String.toList_ofList])
    · exact .inr swapped
  exact ⟨D, comp, J, by rw [splitDest, splitJump, List.append_assoc], spelledD, spelledC, spelledJ⟩

/-- An ordered code that spells no instruction is refused with the parts cut at its first `=` and
the next `;`. -/
theorem parseCompute_of_invalid {code dest rest comp jump : List Char}
    (destCut : FirstCut '=' code dest rest ∨ ('=' ∉ code ∧ dest = [] ∧ rest = code))
    (jumpCut : FirstCut ';' rest comp jump ∨ (';' ∉ rest ∧ comp = rest ∧ jump = []))
    (ordered : ¬ Misordered code) (unspelled : ∀ d c j, ¬ Spells code d c j) :
    parseCompute code = .error (.invalidCombination (String.ofList dest) (String.ofList comp)
      (String.ofList jump)) := by
  have splitDest : (splitAtChar '=' code).getD ([], code) = (dest, rest) := by
    rcases destCut with cut | ⟨absent, rfl, rfl⟩
    · rw [splitAtChar_of_firstCut cut]
      rfl
    · rw [splitAtChar_of_not_mem absent]
      rfl
  have splitJump : (splitAtChar ';' rest).getD (rest, []) = (comp, jump) := by
    rcases jumpCut with cut | ⟨absent, rfl, rfl⟩
    · rw [splitAtChar_of_firstCut cut]
      rfl
    · rw [splitAtChar_of_not_mem absent]
      rfl
  rw [parseCompute_of_ordered ordered]
  simp only [parseCompute.parseParts, splitDest, splitJump]
  split
  · rename_i d c j namedDest namedComp namedJump
    exact absurd (spells_of_parts destCut jumpCut namedDest namedComp namedJump) (unspelled d c j)
  · rfl

theorem parseCompute_of_computeGrammar {code : List Char} {result : Except Error Stmt}
    (reads : ComputeGrammar code result) : parseCompute code = result := by
  cases reads with
  | compute spells => exact parseCompute_of_spells spells
  | misordered misordered => exact parseCompute_of_misordered misordered
  | invalid destCut jumpCut ordered unspelled =>
    exact parseCompute_of_invalid destCut jumpCut ordered unspelled

/-- The grammar gives every code a reading. -/
theorem computeGrammar_total (code : List Char) : ∃ result, ComputeGrammar code result := by
  by_cases misordered : Misordered code
  · exact ⟨_, .misordered misordered⟩
  by_cases spelled : ∃ d c j, Spells code d c j
  · obtain ⟨d, c, j, spells⟩ := spelled
    exact ⟨_, .compute spells⟩
  have destCut : ∃ dest rest,
      FirstCut '=' code dest rest ∨ ('=' ∉ code ∧ dest = [] ∧ rest = code) := by
    rcases firstCut_or_not_mem '=' code with ⟨dest, rest, cut⟩ | absent
    · exact ⟨dest, rest, .inl cut⟩
    · exact ⟨[], code, .inr ⟨absent, rfl, rfl⟩⟩
  obtain ⟨dest, rest, destCut⟩ := destCut
  have jumpCut : ∃ comp jump,
      FirstCut ';' rest comp jump ∨ (';' ∉ rest ∧ comp = rest ∧ jump = []) := by
    rcases firstCut_or_not_mem ';' rest with ⟨comp, jump, cut⟩ | absent
    · exact ⟨comp, jump, .inl cut⟩
    · exact ⟨rest, [], .inr ⟨absent, rfl, rfl⟩⟩
  obtain ⟨comp, jump, jumpCut⟩ := jumpCut
  exact ⟨_, .invalid destCut jumpCut misordered fun d c j spells => spelled ⟨d, c, j, spells⟩⟩

theorem parseCompute_eq_iff {code : List Char} {result : Except Error Stmt} :
    parseCompute code = result ↔ ComputeGrammar code result := by
  constructor
  · rintro rfl
    obtain ⟨result, reads⟩ := computeGrammar_total code
    rwa [parseCompute_of_computeGrammar reads]
  · exact parseCompute_of_computeGrammar

/-! ### Lines -/

theorem Operand.parse_ofList_of_digits {x : List Char} (digits : isDigits x = true) :
    Operand.parse (String.ofList x) =
      if digitsValue 10 x ≤ addressMax then .ok (.literal (digitsValue 10 x).toUInt16)
      else .error (.addressOutOfRange (String.ofList x)) := by
  simp only [Operand.parse, String.toList_ofList, digits, if_true]

theorem Operand.parse_ofList_of_not_digits {x : List Char} (notDigits : isDigits x = false) :
    Operand.parse (String.ofList x) =
      if isSymbolChars x then .ok (.symbol (String.ofList x))
      else .error (.invalidAddress (String.ofList x)) := by
  simp only [Operand.parse, String.toList_ofList, notDigits, Bool.false_eq_true, if_false, isSymbol]

theorem Stmt.parse_of_lineGrammar {line : String} {pc : UInt16} {result : Except Error (Option Stmt)}
    (reads : LineGrammar pc (lineCode line) result) : Stmt.parse line pc = result := by
  generalize shape : lineCode line = code at reads
  cases reads with
  | empty =>
    unfold Stmt.parse
    rw [shape]
  | literal digits fits =>
    rw [Stmt.parse_of_loadCode pc shape, Operand.parse_ofList_of_digits digits, if_pos fits]
    rfl
  | outOfRange digits large =>
    rw [Stmt.parse_of_loadCode pc shape, Operand.parse_ofList_of_digits digits,
      if_neg (Nat.not_le_of_lt large)]
    rfl
  | @symbol x symbol =>
    have named : isSymbol (String.ofList x) = true := by
      rwa [isSymbol, String.toList_ofList]
    have notDigits := isDigits_of_isSymbol named
    rw [String.toList_ofList] at notDigits
    rw [Stmt.parse_of_loadCode pc shape, Operand.parse_ofList_of_not_digits notDigits, if_pos symbol]
    rfl
  | invalidAddress notDigits notSymbol =>
    rw [Stmt.parse_of_loadCode pc shape, Operand.parse_ofList_of_not_digits notDigits,
      if_neg (by rw [notSymbol]; decide)]
    rfl
  | @label name symbol =>
    have named : lineCode line = '(' :: (String.ofList name).toList ++ [')'] := by
      rw [shape, String.toList_ofList]
      rfl
    exact Stmt.parse_of_labelCode pc named (by rwa [isSymbol, String.toList_ofList])
  | @invalidLabel rest unnamed =>
    unfold Stmt.parse
    rw [shape]
    split
    · rename_i empty
      cases empty
    · rename_i load
      cases load
    · rename_i opened
      cases opened
      -- the name is what stands before the last character, which must be `)`
      split
      · rename_i name reversed
        have unreversed : rest = name.reverse ++ [')'] := by
          rw [← List.reverse_reverse rest, reversed, List.reverse_cons]
        rw [if_neg (by rw [unnamed _ unreversed]; decide)]
      · rfl
    · rename_i notEmpty notLoad notLabel
      exact absurd rfl (notLabel _)
  | compute notLoad notLabel reads =>
    rw [Stmt.parse_of_computeCode pc shape notLoad notLabel, parseCompute_of_computeGrammar reads]

/-- The grammar gives every line code a reading. -/
theorem lineGrammar_total (pc : UInt16) (code : List Char) : ∃ result, LineGrammar pc code result := by
  cases code with
  | nil => exact ⟨_, .empty⟩
  | cons c rest =>
    by_cases load : c = '@'
    · subst load
      cases digits : isDigits rest
      · cases symbol : isSymbolChars rest
        · exact ⟨_, .invalidAddress digits symbol⟩
        · exact ⟨_, .symbol symbol⟩
      · by_cases fits : digitsValue 10 rest ≤ addressMax
        · exact ⟨_, .literal digits fits⟩
        · exact ⟨_, .outOfRange digits (Nat.lt_of_not_le fits)⟩
    by_cases label : c = '('
    · subst label
      by_cases named : ∃ name, rest = name ++ [')'] ∧ isSymbolChars name = true
      · obtain ⟨name, rfl, symbol⟩ := named
        exact ⟨_, .label symbol⟩
      · refine ⟨_, .invalidLabel fun name split => ?_⟩
        cases symbol : isSymbolChars name
        · rfl
        · exact absurd ⟨name, split, symbol⟩ named
    obtain ⟨result, reads⟩ := computeGrammar_total (c :: rest)
    exact ⟨_, .compute load label reads⟩

/-- Reading an assembly line gives exactly what the grammar assigns to its code, the text before
its comment with every blank removed: no statement for empty code, a load of a literal of at most
fifteen bits or of a symbol after `@` (an address out of range for a larger number, an invalid
address for anything else), a label closed by `)` after `(` (an invalid label otherwise), and a
compute instruction spelled field by field (a misordered one when its first `=` follows its first
`;`, an invalid combination of the parts cut at those signs otherwise). -/
theorem Stmt.parse_eq_iff_lineGrammar (line : String) (pc : UInt16)
    (result : Except Error (Option Stmt)) :
    Stmt.parse line pc = result ↔ LineGrammar pc (lineCode line) result := by
  constructor
  · rintro rfl
    obtain ⟨result, reads⟩ := lineGrammar_total pc (lineCode line)
    rwa [Stmt.parse_of_lineGrammar reads]
  · exact Stmt.parse_of_lineGrammar

-- blanks go wherever they stand, also inside an operand, and `M+D` is the other order of `D+M`
example : Stmt.parse "  AM = M + D ; JMP // x" 3 = .ok (some (.compute Dest.AM .addDM Jump.JMP)) :=
  rfl

example : Stmt.parse "@ 2 1" 0 = .ok (some (.load (.literal 21))) := rfl

end Hack.Asm
