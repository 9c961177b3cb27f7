import Hack.Proofs.TranslationAssembly
/-! Where the statics of a translated program live, and the label that can take a static's name. -/

set_option autoImplicit false

namespace Hack

theorem dot_mem_static (file : String) (i : Nat) : '.' ∈ (file ++ "." ++ toString i).toList := by
  simp

/-- A static's name gives back its unit and its index: the index is written in digits, so the
last dot of the name is the one before it. -/
theorem static_name_inj {file file' : String} {i j : Nat}
    (same : file ++ "." ++ toString i = file' ++ "." ++ toString j) : file = file' ∧ i = j := by
  have noDot : ∀ n : Nat, '.' ∉ (toString n).toList.reverse := by
    intro n member
    have digit := digits_toString (List.mem_reverse.mp member)
    exact absurd digit (by decide)
  have reversed := congrArg (fun s : String => s.toList.reverse) same
  simp only [String.toList_append, List.reverse_append, List.append_assoc] at reversed
  change (toString i).toList.reverse ++ '.' :: file.toList.reverse =
    (toString j).toList.reverse ++ '.' :: file'.toList.reverse at reversed
  have split := Text.splitAtChar_append_cons file.toList.reverse (noDot i)
  rw [reversed, Text.splitAtChar_append_cons _ (noDot j)] at split
  simp only [Option.some.injEq, Prod.mk.injEq, List.reverse_inj, String.toList_inj] at split
  exact ⟨split.2.symm, repr_injective split.1.symm⟩

end Hack

namespace Hack.Asm

/-! ### The variables of a program -/

section Variables

variable {prog : List Line} {name : String}

/-- A name that is not predefined is free exactly when no label has it. -/
theorem unbound_iff (plain : predefined.lookup name = none) :
    unbound prog name = true ↔ name ∉ (labels prog).map Prod.fst := by
  rw [unbound, bindings, List.lookup_append, plain, Option.none_or, Option.isNone_iff_eq_none,
    List.lookup_eq_none_iff]
  constructor
  · intro distinct named
    obtain ⟨p, member, rfl⟩ := List.mem_map.mp named
    exact absurd (distinct p member) (by simp)
  · intro absent p member
    exact bne_iff_ne.mpr fun same => absent (List.mem_map.mpr ⟨p, member, same.symm⟩)

theorem address_of_mem_allVariables (allocated : name ∈ allVariables prog) :
    address prog name = variableBase + (allVariables prog).idxOf name :=
  address_of_unbound prog name (mem_allVariables_iff.mp allocated).2

/-- A variable's word lies from 16 up, below 16 plus the number of variables. -/
theorem address_bounds (allocated : name ∈ allVariables prog) :
    variableBase ≤ address prog name ∧ address prog name < variableBase + (allVariables prog).length := by
  rw [address_of_mem_allVariables allocated]
  have ranked := List.idxOf_lt_length_of_mem allocated
  omega

/-- Two variables with one word are one variable. -/
theorem address_injective {other : String} (allocated : name ∈ allVariables prog)
    (allocated' : other ∈ allVariables prog) (same : address prog name = address prog other) :
    name = other := by
  rw [address_of_mem_allVariables allocated, address_of_mem_allVariables allocated'] at same
  exact (List.idxOf_inj allocated).mp (by omega)

/-- In a program where no use of a variable overflows, every variable lies below the screen map. -/
theorem address_lt_variableLimit (fits : prog.findSome? (overflow prog) = none)
    (allocated : name ∈ allVariables prog) : address prog name < variableLimit := by
  obtain ⟨used, free⟩ := mem_allVariables_iff.mp allocated
  obtain ⟨line, member, uses⟩ := mem_operands_iff.mp used
  have quiet := List.findSome?_eq_none_iff.mp fits line member
  simp only [overflow, uses, free, true_and] at quiet
  split at quiet
  · cases quiet
  · omega

end Variables

theorem toLine_mem_program {lines before after : List SourceLine} {line : SourceLine}
    (split : lines = before ++ line :: after) : line.toLine before ∈ program lines := by
  rw [split, program, mapAfter_append, List.nil_append, mapAfter_cons]
  simp

end Hack.Asm

namespace Hack.Vm

open Asm

/-! ### Statics in the code -/

/-- A static of a program that reads is named by its unit and an index. -/
theorem static_named {units : List SourceFile} (reads : ∀ u ∈ units, u.read = .ok u.commands)
    {access : Access} {name : String}
    (member : .memory access (.static name) ∈ units.flatMap SourceFile.commands) :
    ∃ u ∈ units, ∃ i : Nat, name = u.name ++ "." ++ toString i := by
  rw [← map_snd_programView] at member
  obtain ⟨p, inView, command⟩ := List.mem_map.mp member
  obtain ⟨u, unit, inUnit⟩ := List.mem_flatMap.mp inView
  have named := scoped_named (reads u unit) p inUnit
  rw [command] at named
  obtain ⟨i, rfl⟩ := named
  exact ⟨u, unit, i, by rw [(scope_of_mem_scoped inUnit).1]⟩

theorem addr_mem_lower (access : Access) (name : String) (serial : Nat) :
    Code.addr name ∈ (Command.memory access (.static name)).lower serial := by
  cases access <;> simp [Command.lower, Command.body, Code.push, Code.pop]

/-- The code of each command stands in the code of the commands. -/
theorem lower_subset_codeFrom {cmd : Command} :
    ∀ (serial : Nat) {cmds : List Command}, cmd ∈ cmds →
      ∃ at_, cmd.lower at_ ⊆ codeFrom serial cmds
  | _, [], member => by cases member
  | serial, first :: rest, member => by
    rcases List.mem_cons.mp member with rfl | later
    · exact ⟨serial, List.subset_append_left _ _⟩
    · obtain ⟨at_, inside⟩ := lower_subset_codeFrom _ later
      exact ⟨at_, List.Subset.trans inside (List.subset_append_right _ _)⟩

theorem addr_mem_programCode {units : List SourceFile} (options : Options) {access : Access}
    {name : String} (member : .memory access (.static name) ∈ units.flatMap SourceFile.commands) :
    Code.addr name ∈ programCode units options := by
  obtain ⟨at_, inside⟩ := lower_subset_codeFrom 0 member
  exact List.mem_append_right _ (inside (addr_mem_lower access name at_))

/-! ### Statics in the text -/

section Translated

variable {units : List SourceFile} {options : Options} {text : String}
  (symbols : ∀ u ∈ units, isSymbol u.name = true) (translated : translate units options = .ok text)

include symbols translated in
/-- Every piece of a translated program stands, as its statement, in the program the assembler
reads from the text. -/
theorem piece_read (file : String) {p : Piece} (member : p ∈ programCode units options) :
    ∃ (before : List SourceLine) (line : SourceLine), line.toLine before ∈ program (sourceLines [(file, text)]) ∧
      (line.toLine before).stmt = p.stmt (wordCount before).toUInt16 := by
  obtain ⟨pre, post, pieces⟩ := List.append_of_mem member
  have raws : (sourceLines [(file, text)]).map SourceLine.raw =
      renderFrom options.annotate 0 pre ++
        p.line options.annotate (codeWidth pre) ::
          renderFrom options.annotate (codeWidth pre + p.width) post := by
    rw [sourceLines_single, raws_fileLines, lines_translate symbols translated,
      if_neg (List.ne_nil_of_mem member), programLines, pieces, renderFrom_append, renderFrom,
      Nat.zero_add]
  obtain ⟨before, rest, split, -, restRaws⟩ := List.map_eq_append_iff.mp raws
  obtain ⟨line, after, rfl, raw, -⟩ := List.map_eq_cons_iff.mp restRaws
  have sound := sound_translate symbols translated p member
  refine ⟨before, line, toLine_mem_program split, ?_⟩
  simp only [SourceLine.toLine, SourceLine.read, raw, Piece.parse_line sound]

include symbols translated in
/-- The program read from a translated text uses every static of its commands. -/
theorem operand_translate (file : String) {access : Access} {name : String}
    (member : .memory access (.static name) ∈ units.flatMap SourceFile.commands) :
    name ∈ operands (program (sourceLines [(file, text)])) := by
  obtain ⟨before, line, inProgram, stmt⟩ :=
    piece_read symbols translated file (addr_mem_programCode options member)
  exact mem_operands _ _ inProgram name stmt

include symbols translated in
/-- The labels read from a translated text are the names of its label sources. -/
theorem labelNames_translate (file : String) :
    (labels (program (sourceLines [(file, text)]))).map Prod.fst =
      (programSources units options).map LabelSource.name := by
  rw [labels_program, definedLabels_translate symbols translated]

end Translated

/-! ### Where the statics live -/

/-- The statics of a translated program are named by unit and index, and the assembler binds one
to a RAM word of its own exactly when no label of the program has its name. Its variables lie from
16 up, below 16 plus their number, so below the stack while there are at most 240 of them, and
below the screen map when the program assembles; statics of distinct units or indexes that are
variables lie in distinct words. -/
theorem static_memory {units : List SourceFile} {options : Options} {text : String}
    (symbols : ∀ u ∈ units, isSymbol u.name = true)
    (translated : translate units options = .ok text) (file : String) :
    (∀ access name, .memory access (.static name) ∈ units.flatMap SourceFile.commands →
      (∃ u ∈ units, ∃ i : Nat, name = u.name ++ "." ++ toString i) ∧
      (name ∈ allVariables (program (sourceLines [(file, text)])) ↔
        name ∉ (programSources units options).map LabelSource.name)) ∧
    (∀ name ∈ allVariables (program (sourceLines [(file, text)])),
      variableBase ≤ address (program (sourceLines [(file, text)])) name ∧
      address (program (sourceLines [(file, text)])) name <
        variableBase + (allVariables (program (sourceLines [(file, text)]))).length ∧
      ((allVariables (program (sourceLines [(file, text)]))).length + variableBase ≤ stackBase →
        address (program (sourceLines [(file, text)])) name < stackBase) ∧
      ∀ words, assemble file text = .ok words →
        address (program (sourceLines [(file, text)])) name < variableLimit) ∧
    (∀ (unit unit' : String) (i j : Nat),
      unit ++ "." ++ toString i ∈ allVariables (program (sourceLines [(file, text)])) →
      unit' ++ "." ++ toString j ∈ allVariables (program (sourceLines [(file, text)])) →
      address (program (sourceLines [(file, text)])) (unit ++ "." ++ toString i) =
        address (program (sourceLines [(file, text)])) (unit' ++ "." ++ toString j) →
      unit = unit' ∧ i = j) := by
  have reads := (translate_eq_ok translated).1
  refine ⟨fun access name member => ?_, fun name allocated => ?_,
    fun unit unit' i j allocated allocated' same =>
      static_name_inj (address_injective allocated allocated' same)⟩
  · obtain ⟨u, unit, i, rfl⟩ := static_named reads member
    refine ⟨⟨u, unit, i, rfl⟩, ?_⟩
    have plain := predefined_lookup_of_mem (by decide) (dot_mem_static u.name i)
    rw [mem_allVariables_iff, unbound_iff plain, labelNames_translate symbols translated]
    exact and_iff_right (operand_translate symbols translated file member)
  · obtain ⟨low, high⟩ := address_bounds allocated
    refine ⟨low, high, fun few => by omega, fun words assembled => ?_⟩
    obtain ⟨-, -, fits, -⟩ := assembleReference_eq_ok (assembleReference_of_assemble assembled)
    exact address_lt_variableLimit fits allocated

/-- A unit whose function is named like its static 0. -/
def shadowUnit : SourceFile :=
  ⟨"Main", "Main.vm", "function Main.0 0\npush constant 7\npop static 0\n"⟩

/-- Static 0 of `Main` is no variable once a function is named `Main.0`: the pop writes to the
word the function's entry is bound to. -/
theorem static_memory_shadowed :
    Command.memory .pop (.static "Main.0") ∈ [shadowUnit].flatMap SourceFile.commands ∧
      ∃ text, translate [shadowUnit] { bootstrap := false } = .ok text ∧
        "Main.0" ∉ allVariables (program (sourceLines [("Main.asm", text)])) := by
  have read : shadowUnit.read =
      .ok [.define "Main.0" 0, .memory .push (.constant 7), .memory .pop (.static "Main.0")] := by
    rfl
  have commands : shadowUnit.commands =
      [.define "Main.0" 0, .memory .push (.constant 7), .memory .pop (.static "Main.0")] := by
    rw [SourceFile.commands, read]
  have reads : ∀ u ∈ [shadowUnit], u.read = .ok u.commands := by
    simp only [List.mem_singleton, forall_eq, read, commands]
  have symbols : ∀ u ∈ [shadowUnit], isSymbol u.name = true := by
    simp only [List.mem_singleton, forall_eq]
    decide
  have member : Command.memory .pop (.static "Main.0") ∈ [shadowUnit].flatMap SourceFile.commands := by
    simp [commands]
  have translated := translate_of_read { bootstrap := false } reads
  have sources : (programSources [shadowUnit] { bootstrap := false }).map LabelSource.name =
      ["Main.0"] := by
    simp only [programSources, programView, List.flatMap_cons, List.flatMap_nil, List.append_nil,
      SourceFile.scoped, commands, Scope.annotate, Scope.init, Scope.advance]
    rfl
  have labelled := ((static_memory symbols translated "Main.asm").1 _ _ member).2
  rw [sources] at labelled
  exact ⟨member, _, translated, fun allocated => labelled.mp allocated (List.mem_singleton_self _)⟩

end Hack.Vm
