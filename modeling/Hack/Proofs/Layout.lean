import Mathlib.Data.List.Perm.Subperm
import Hack.Proofs.StaticMemory
import Hack.Proofs.VmSemantics
/-! Where the assembler puts the code of a translated program: each command's instructions from the
word after the code before it, each label at the word of the piece after it, statics in cells. -/

set_option autoImplicit false

namespace Hack.Vm

open Asm Machine

/-! ### The code of commands one after another -/

/-- The number of comparisons among some commands: the serial of the next comparison's labels. -/
def comparisons (cmds : List Command) : Nat :=
  cmds.countP (·.isComparison)

theorem codeFrom_append (serial : Nat) (first second : List Command) :
    codeFrom serial (first ++ second) =
      codeFrom serial first ++ codeFrom (serial + comparisons first) second := by
  induction first generalizing serial with
  | nil => simp [codeFrom, comparisons]
  | cons cmd rest ih =>
    rw [List.cons_append, codeFrom, codeFrom, ih, List.append_assoc]
    congr 3
    simp only [comparisons, List.countP_cons]
    split <;> omega

/-- The code of the commands before position `p + 1` is that before `p` and the code of the
command at `p`, numbered after the comparisons before it. -/
theorem codeFrom_take_succ {cmds : List Command} {p : Nat} {cmd : Command}
    (at_ : cmds[p]? = some cmd) :
    codeFrom 0 (cmds.take (p + 1)) =
      codeFrom 0 (cmds.take p) ++ cmd.lower (comparisons (cmds.take p)) := by
  rw [List.take_add_one, at_, Option.toList_some, codeFrom_append, Nat.zero_add, codeFrom, codeFrom,
    List.append_nil]

/-- The code of a program split at position `p`: the code before it, the command's own, then the
code after it. -/
theorem codeFrom_split {cmds : List Command} {p : Nat} {cmd : Command}
    (at_ : cmds[p]? = some cmd) :
    codeFrom 0 cmds = codeFrom 0 (cmds.take p) ++ cmd.lower (comparisons (cmds.take p)) ++
      codeFrom (comparisons (cmds.take (p + 1))) (cmds.drop (p + 1)) := by
  conv => lhs; rw [← List.take_append_drop (p + 1) cmds]
  rw [codeFrom_append, Nat.zero_add, codeFrom_take_succ at_]

/-- The word where the code of the command at position `p` starts: after the bootstrap and the
code of the commands before it. -/
def codeStart (cmds : List Command) (p : Nat) : UInt16 :=
  (codeWidth Code.bootstrap + codeWidth (codeFrom 0 (cmds.take p))).toUInt16

/-- The words some pieces take are their instructions. -/
theorem length_instructions (addr : String → UInt16) (pieces : List Piece) :
    (instructions addr pieces).length = codeWidth pieces := by
  induction pieces with
  | nil => rfl
  | cons p rest ih =>
    cases p <;> simp [instructions, Piece.width] at ih ⊢ <;> omega

/-- The code of the next position starts where the code of the command at `p` ends. -/
theorem codeStart_succ {cmds : List Command} {p : Nat} {cmd : Command} (at_ : cmds[p]? = some cmd)
    (addr : String → UInt16) :
    codeStart cmds (p + 1) =
      codeStart cmds p + (instructions addr (cmd.lower (comparisons (cmds.take p)))).length.toUInt16 := by
  rw [codeStart, codeStart, codeFrom_take_succ at_, codeWidth_append, length_instructions, ← Nat.add_assoc]
  simp

/-- What the simulation reads of an assembled program that holds the VM program `cmds`, with `addr`
the assembler's symbol table and `code p` the word where the code of position `p` starts: the
bootstrap from word 0 returning to the first command, each command's instructions from its word on
and up to the next position's word, each label at the word of the command that defines it, a call's
return label at the next position, a comparison's labels 12 and 15 words into its code, and the
statics in cells of their own between the registers and the stack. -/
structure Layout (cmds : List Command) (rom : Array UInt16) (addr : String → UInt16)
    (code : Nat → UInt16) : Prop where
  resolution : Resolution addr
  fits : ∀ cmd ∈ cmds, cmd.Fits
  bootstrap : CodeAt rom 0 (instructions addr Code.bootstrap)
  bootReturn : addr Code.bootstrapReturn = code 0
  placed : ∀ p cmd, cmds[p]? = some cmd →
    CodeAt rom (code p) (instructions addr (cmd.lower (comparisons (cmds.take p))))
  next : ∀ p cmd, cmds[p]? = some cmd →
    code (p + 1) = code p + (instructions addr (cmd.lower (comparisons (cmds.take p)))).length.toUInt16
  label : ∀ p name, cmds[p]? = some (.branch .label name) → addr name = code p
  entry : ∀ p name locals, cmds[p]? = some (.define name locals) → addr name = code p
  returns : ∀ p name args tag, cmds[p]? = some (.call name args tag) → addr tag = code (p + 1)
  compares : ∀ p op, cmds[p]? = some (.arithmetic op) → op.comparison?.isSome →
    CompareLabels addr (comparisons (cmds.take p)) (code p)
  cells : ∀ name ∈ staticNames cmds, 16 ≤ (addr name).toNat ∧ (addr name).toNat < 256
  apart : ∀ name ∈ staticNames cmds, ∀ other ∈ staticNames cmds, addr name = addr other →
    name = other

/-! ### The statements the assembler reads -/

/-- The statements of pieces written from the word `start` on, each label bound to the word of
the first instruction after it. -/
def pieceStmts : Nat → List Piece → List (Option Stmt)
  | _, [] => []
  | start, p :: rest => p.stmt start.toUInt16 :: pieceStmts (start + p.width) rest

theorem pieceStmts_append (start : Nat) (first second : List Piece) :
    pieceStmts start (first ++ second) =
      pieceStmts start first ++ pieceStmts (start + codeWidth first) second := by
  induction first generalizing start with
  | nil => rfl
  | cons p rest ih => simp [pieceStmts, ih, Nat.add_assoc]

/-- Lines written from sound pieces read back, one by one, as the pieces' statements, each label
bound to the number of instruction lines before it. -/
theorem stmts_mapAfter {annotate : Bool} :
    ∀ {pieces : List Piece} {before lines : List SourceLine}, SoundCode pieces →
      lines.map SourceLine.raw = renderFrom annotate (wordCount before) pieces →
      (mapAfter SourceLine.toLine before lines).map Line.stmt = pieceStmts (wordCount before) pieces
  | [], _, [], _, _ => rfl
  | [], _, _ :: _, _, raws => by simp [renderFrom] at raws
  | _ :: _, _, [], _, raws => by simp [renderFrom] at raws
  | p :: rest, before, line :: lines, sound, raws => by
    rw [soundCode_cons] at sound
    simp only [renderFrom, List.map_cons, List.cons.injEq] at raws
    have counted : wordCount (before ++ [line]) = wordCount before + p.width := by
      rw [wordCount_append, wordCount_singleton, raws.1, ← Piece.isInstCode_line sound.1 annotate]
      cases isInstCode (lineCode (p.line annotate (wordCount before))) <;> rfl
    have read : (line.toLine before).stmt = p.stmt (wordCount before).toUInt16 := by
      simp only [SourceLine.toLine, SourceLine.read, raws.1, Piece.parse_line sound.1]
    rw [mapAfter_cons, List.map_cons, read, stmts_mapAfter sound.2 (by rw [counted]; exact raws.2),
      counted]
    rfl

section Translated

variable {units : List SourceFile} {options : Options} {text : String}
  (symbols : ∀ u ∈ units, isSymbol u.name = true) (translated : translate units options = .ok text)

include symbols translated in
/-- The program the assembler reads from a translated text holds the statements of the program's
code, each label bound to the number of instructions before it. -/
theorem stmts_translate (file : String) (code : programCode units options ≠ []) :
    (program (sourceLines [(file, text)])).map Line.stmt = pieceStmts 0 (programCode units options) := by
  have raws : (sourceLines [(file, text)]).map SourceLine.raw =
      renderFrom options.annotate (wordCount []) (programCode units options) := by
    rw [sourceLines_single, raws_fileLines, lines_translate symbols translated, if_neg code]
    rfl
  exact stmts_mapAfter (sound_translate symbols translated) raws

end Translated

end Hack.Vm

namespace Hack.Asm

/-! ### The symbol table of a program that assembles -/

theorem nodup_eraseDups {α : Type} [BEq α] [LawfulBEq α] : ∀ l : List α, l.eraseDups.Nodup
  | [] => List.nodup_nil
  | a :: rest => by
    rw [List.eraseDups_cons, List.nodup_cons, List.mem_eraseDups]
    refine ⟨fun member => by simp at member, nodup_eraseDups _⟩
termination_by l => l.length
decreasing_by
  have shorter := List.length_filter_le (fun b => !b == a) rest
  simp only [List.length_cons]
  omega

/-- The label a statement binds, with its word. -/
def labelEntry : Option Stmt → Option (String × UInt16)
  | some (.label name pc) => some (name, pc)
  | _ => none

theorem labels_eq_filterMap (prog : List Line) :
    labels prog = (prog.map Line.stmt).filterMap labelEntry := by
  rw [labels, List.filterMap_map]
  rfl

theorem labelEntry_eq_some {st : Option Stmt} {name : String} {pc : UInt16} :
    labelEntry st = some (name, pc) ↔ st = some (.label name pc) := by
  cases st with
  | none => simp [labelEntry]
  | some st => cases st <;> simp [labelEntry]

theorem labels_singleton (line : Line) : labels [line] = (labelEntry line.stmt).toList := by
  rw [labels_eq_filterMap, List.map_singleton, List.filterMap_cons, List.filterMap_nil]
  cases labelEntry line.stmt <;> rfl

/-- A program whose labels clash with nothing binds each name at most once. -/
theorem nodup_labels {before : List Line} (distinct : ((labels before).map Prod.fst).Nodup) :
    ∀ {rest : List Line}, firstIssue labelClash before rest = none →
      ((labels (before ++ rest)).map Prod.fst).Nodup
  | [], _ => by rwa [List.append_nil]
  | line :: rest, clean => by
    rw [firstIssue_cons, Option.or_eq_none_iff] at clean
    have step : ((labels (before ++ [line])).map Prod.fst).Nodup := by
      rw [labels_append, labels_singleton]
      cases found : labelEntry line.stmt with
      | none => simpa using distinct
      | some entry =>
        -- the line binds a label, so the clash check found no earlier binding of its name
        obtain ⟨name, pc⟩ := entry
        have quiet := clean.1
        rw [labelClash, labelEntry_eq_some.mp found] at quiet
        simp only [Option.map_eq_none_iff, bindings, List.lookup_append, Option.or_eq_none_iff,
          List.lookup_eq_none_iff] at quiet
        simp only [Option.toList_some, List.map_append, List.map_cons, List.map_nil,
          List.nodup_append, List.nodup_cons, List.not_mem_nil, not_false_eq_true, List.nodup_nil,
          and_self, List.mem_singleton, true_and, distinct]
        intro other seen _ named
        subst named
        obtain ⟨entry, member, rfl⟩ := List.mem_map.mp seen
        have apart := quiet.2 entry member
        rw [bne_iff_ne] at apart
        exact Ne.symm apart
    have later := nodup_labels step clean.2
    rwa [List.append_assoc, List.singleton_append] at later

/-- In a list of entries whose names are distinct, a name finds its own entry. -/
theorem lookup_of_mem {entries : List (String × UInt16)} (distinct : (entries.map Prod.fst).Nodup)
    {name : String} {a : UInt16} (member : (name, a) ∈ entries) : entries.lookup name = some a := by
  obtain ⟨pre, post, rfl⟩ := List.append_of_mem member
  refine List.lookup_eq_some_iff.mpr ⟨pre, post, rfl, fun entry earlier => ?_⟩
  rw [List.map_append, List.map_cons, List.nodup_append] at distinct
  have apart := distinct.2.2 entry.1 (List.mem_map_of_mem earlier) name List.mem_cons_self
  exact bne_iff_ne.mpr (Ne.symm apart)

/-- Lines that all read hold at most as many instructions as the ROM has words: each instruction
is read only while a word is free. -/
theorem wordCount_le_of_clean : ∀ {before lines : List SourceLine}, wordCount before ≤ romSize →
    firstIssue readError before lines = none → wordCount (before ++ lines) ≤ romSize
  | before, [], fits, _ => by rwa [List.append_nil]
  | before, line :: rest, fits, clean => by
    rw [firstIssue_cons, Option.or_eq_none_iff] at clean
    have next : wordCount (before ++ [line]) ≤ romSize := by
      rw [wordCount_append, wordCount_singleton]
      split
      · rename_i inst
        have quiet := clean.1
        unfold readError at quiet
        split at quiet
        · cases quiet
        · split at quiet
          · cases quiet
          · omega
        · rename_i parsed
          rw [Stmt.parse_eq_none parsed] at inst
          cases inst
      · omega
    have later := wordCount_le_of_clean next clean.2
    rwa [List.append_assoc, List.singleton_append] at later

section Assembled

variable {files : List (String × String)} {words : List UInt16}
  (assembled : assembleReference files = .ok words)

include assembled in
/-- The labels of a program that assembles have distinct names. -/
theorem nodup_labels_of_assembled : ((labels (program (sourceLines files))).map Prod.fst).Nodup := by
  obtain ⟨-, clean, -, -⟩ := assembleReference_eq_ok assembled
  have distinct := @nodup_labels [] List.nodup_nil _ clean
  rwa [List.nil_append] at distinct

include assembled in
/-- A program that assembles has fewer variables than the screen map leaves words. -/
theorem variables_length_le :
    variableBase + (allVariables (program (sourceLines files))).length ≤ variableLimit := by
  obtain ⟨-, -, fits, -⟩ := assembleReference_eq_ok assembled
  generalize named : allVariables (program (sourceLines files)) = vars
  -- the last variable has the highest word, below the screen map
  rcases vars.eq_nil_or_concat with empty | ⟨front, last, split⟩
  · subst empty
    simp [variableBase, variableLimit]
  · rw [List.concat_eq_append] at split
    subst split
    have allocated : last ∈ allVariables (program (sourceLines files)) := by simp [named]
    have below := address_lt_variableLimit fits allocated
    have distinct : (front ++ [last]).Nodup := by
      rw [← named]
      exact nodup_eraseDups _
    have ranked : (front ++ [last]).idxOf last = front.length := by
      have own := distinct.idxOf_getElem front.length (by simp)
      simpa using own
    rw [address_of_mem_allVariables allocated, named, ranked] at below
    simp only [List.length_append, List.length_singleton]
    omega

include assembled in
/-- The symbol table of a program that assembles keeps the predefined names, and every address
fits a load. -/
theorem resolution_of_assembled :
    Vm.Resolution fun name => (address (program (sourceLines files)) name).toUInt16 := by
  obtain ⟨clean, noClash, -, -⟩ := assembleReference_eq_ok assembled
  have sound := program_sound [] (sourceLines files) clean
  have unlabelled : ∀ name a, predefined.lookup name = some a →
      (labels (program (sourceLines files))).lookup name = none := by
    intro name a found
    cases label : (labels (program (sourceLines files))).lookup name with
    | none => rfl
    | some b =>
      obtain ⟨pre, post, split, -⟩ := List.lookup_eq_some_iff.mp label
      have member : (name, b) ∈ labels (program (sourceLines files)) := by
        rw [split]
        simp
      have fresh := predefined_lookup_of_label [] _ noClash name b member
      rw [found] at fresh
      cases fresh
  have small : ∀ n : Nat, n < 32768 → n.toUInt16.toNat = n := fun n bound => by
    simp only [Nat.toUInt16_eq, UInt16.toNat_ofNat']
    omega
  refine Vm.Resolution.of_lookup _ (fun name a found => ?_) (fun name plain => ?_)
  · have bound := predefined_lt name a found
    rw [address, unlabelled name a found, found]
    exact UInt16.toNat_inj.mp (small _ bound)
  · unfold address
    rw [plain]
    cases label : (labels (program (sourceLines files))).lookup name with
    | some a =>
      have bound := label_lt _ sound name a label
      simp only [romSize] at bound
      rw [small _ bound]
      exact bound
    | none =>
      have ranked := List.idxOf_le_length (a := name) (l := allVariables (program (sourceLines files)))
      have room := variables_length_le assembled
      simp only [variableBase, variableLimit] at room ⊢
      rw [small _ (by omega)]
      omega

include assembled in
/-- A program that assembles fits the ROM. -/
theorem length_le_romSize : words.length ≤ romSize := by
  obtain ⟨clean, -, -, -⟩ := assembleReference_eq_ok assembled
  rw [length_assembleReference assembled]
  have fits : wordCount ([] ++ sourceLines files) ≤ romSize := wordCount_le_of_clean (by decide) clean
  rwa [List.nil_append] at fits

end Assembled

end Hack.Asm

namespace Hack.Vm

open Asm Machine

/-! ### The words and labels of a translated program -/

/-- The word the assembler gives a symbol of a one-file program. -/
def symbolWord (file text name : String) : UInt16 :=
  (address (program (sourceLines [(file, text)])) name).toUInt16

/-- Pieces read as statements give, word by word, their instructions with symbols resolved by the
program's table. -/
theorem filterMap_word_pieceStmts {P : List Line}
    (res : Resolution fun name => (address P name).toUInt16) :
    ∀ (start : Nat) {pieces : List Piece}, SoundCode pieces →
      (pieceStmts start pieces).filterMap (·.bind (word P)) =
        (instructions (fun name => (address P name).toUInt16) pieces).map Inst.toWord
  | _, [], _ => rfl
  | start, p :: rest, sound => by
    rw [soundCode_cons] at sound
    have head : (pieceStmts start (p :: rest)).filterMap (·.bind (word P)) =
        ((p.stmt start.toUInt16).bind (word P)).toList ++
          (pieceStmts (start + p.width) rest).filterMap (·.bind (word P)) := by
      rw [pieceStmts, List.filterMap_cons]
      cases (p.stmt start.toUInt16).bind (word P) <;> rfl
    rw [head, filterMap_word_pieceStmts res (start + p.width) sound.2,
      show p :: rest = [p] ++ rest from rfl, instructions_append, List.map_append]
    congr 1
    -- one piece: an instruction's word, or nothing for a label or a comment
    cases p with
    | instr i =>
      cases i with
      | load address =>
        cases address with
        | number n =>
          have fits : n.toUInt16.toNat < 32768 := by
            have bound : n ≤ addressMax := sound.1
            simp only [addressMax] at bound
            simp only [Nat.toUInt16_eq, UInt16.toNat_ofNat']
            omega
          simp [Piece.stmt, Instr.stmt, word, instructions, Instr.resolve, Inst.toWord_load _ fits]
        | name symbol =>
          simp [Piece.stmt, Instr.stmt, word, instructions, Instr.resolve,
            Inst.toWord_load _ (res.fits symbol)]
      | compute dest comp jump =>
        simp [Piece.stmt, Instr.stmt, word, instructions, Instr.resolve, Inst.toWord_compute]
    | label name => simp [Piece.stmt, word, instructions]
    | comment text => simp [Piece.stmt, instructions]

section Translated

variable {units : List SourceFile} {options : Options} {text : String}
  (symbols : ∀ u ∈ units, isSymbol u.name = true) (translated : translate units options = .ok text)
  {file : String} {words : Array UInt16} (assembled : assemble file text = .ok words)
  (code : programCode units options ≠ [])

include symbols translated assembled code in
/-- The words a translated program assembles to are the instructions of its code, each symbol
resolved by the assembler's table. -/
theorem words_translate :
    words.toList = (instructions (symbolWord file text) (programCode units options)).map Inst.toWord := by
  have reference := assembleReference_of_assemble assembled
  obtain ⟨-, -, -, listed⟩ := assembleReference_eq_ok reference
  rw [listed, show (fun line : Line => line.stmt.bind (word (program (sourceLines [(file, text)])))) =
      (fun st : Option Stmt => st.bind (word (program (sourceLines [(file, text)])))) ∘ Line.stmt
      from rfl, ← List.filterMap_map,
    stmts_translate symbols translated file code]
  exact filterMap_word_pieceStmts (resolution_of_assembled reference) 0
    (sound_translate symbols translated)

include symbols translated assembled code in
/-- A label of a translated program that assembles is bound to the number of instructions
before it. -/
theorem address_label {pre post : List Piece} {name : String}
    (split : programCode units options = pre ++ .label name :: post) :
    address (program (sourceLines [(file, text)])) name = codeWidth pre := by
  have reference := assembleReference_of_assemble assembled
  have member : (name, (codeWidth pre).toUInt16) ∈ labels (program (sourceLines [(file, text)])) := by
    rw [labels_eq_filterMap, stmts_translate symbols translated file code, split,
      pieceStmts_append, Nat.zero_add, pieceStmts]
    simp [Piece.stmt, labelEntry]
  have found := lookup_of_mem (nodup_labels_of_assembled reference) member
  -- the label stands among the program's words, which fit the ROM
  have within : codeWidth pre ≤ words.toList.length := by
    rw [words_translate symbols translated assembled code, List.length_map, length_instructions,
      split, codeWidth_append]
    omega
  have fits := length_le_romSize reference
  simp only [romSize] at fits
  rw [address, found]
  simp only [Nat.toUInt16_eq, UInt16.toNat_ofNat']
  omega

end Translated

end Hack.Vm

namespace Hack.Vm

open Asm Machine

/-! ### The symbols the code loads -/

/-- The symbol a command names beyond its own code: the static it reads or writes, the label it
jumps to, or the function it calls. -/
def Command.symbol? : Command → Option String
  | .memory _ (.static name) => some name
  | .branch .goto name | .branch .ifGoto name => some name
  | .call name _ _ => some name
  | _ => none

theorem isSome_lookup_tempRegister {i : UInt16} (small : i.toNat < 8) :
    (predefined.lookup (Code.tempRegister i)).isSome := by
  have table : ∀ n : Fin 8, (List.lookup ("R" ++ toString (5 + n.val)) predefined).isSome := by
    decide
  rw [Code.tempRegister_of_le (by omega)]
  exact table ⟨i.toNat, small⟩

theorem isSome_lookup_pointerRegister (i : UInt16) :
    (predefined.lookup (Code.pointerRegister i)).isSome := by
  unfold Code.pointerRegister
  split <;> decide

theorem isSome_lookup_register (base : Base) : (predefined.lookup base.register).isSome := by
  cases base <;> decide

theorem not_loads_offset (dest : Dest) (i : UInt16) (name : String) :
    .instr (.load (.name name)) ∉ Code.offset dest i := by
  unfold Code.offset
  split
  · simp
  · split <;> simp [Code.literal, Code.assign]

/-- The entry of a function loads only `SP`, once for each local. -/
theorem loads_define {function name : String} {locals : Nat}
    (loads : .instr (.load (.name name)) ∈ Code.define function locals) : name = "SP" := by
  simp only [Code.define, List.mem_cons, reduceCtorEq, false_or, List.mem_flatten,
    List.mem_replicate] at loads
  obtain ⟨block, ⟨-, rfl⟩, member⟩ := loads
  simpa [Code.addr, Code.assign] using member

/-- Every symbol a command's code loads is predefined, a label of that code, or the symbol the
command names. -/
theorem loads_lower {cmd : Command} (fits : cmd.Fits) (serial : Nat) {name : String}
    (loads : .instr (.load (.name name)) ∈ cmd.lower serial) :
    (predefined.lookup name).isSome ∨ .label name ∈ cmd.lower serial ∨ cmd.symbol? = some name := by
  -- the code of each command is a fixed list: read off the names it loads, one goal per name
  rcases cmd with (_ | _ | _ | _ | _ | _ | _ | _ | _) | ⟨(_ | _), (_ | _ | _ | _ | _)⟩ |
    ⟨(_ | _ | _), label⟩ | ⟨function, locals⟩ | ⟨function, args, tag⟩ | _
  all_goals
    simp only [Command.lower, Command.body, Code.arithmetic, Code.binary, Code.unary, Code.compare,
      Code.push, Code.pop, Code.pushD, Code.popD, Code.call, Code.ret, Code.saved, Code.addr,
      Code.assign, Code.literal, Code.branchOn, List.reverse_cons, List.reverse_nil, List.nil_append,
      List.cons_append, List.flatMap_cons, List.flatMap_nil, List.append_nil, List.mem_cons,
      List.mem_append, List.not_mem_nil, Piece.instr.injEq, Instr.load.injEq, Address.name.injEq,
      reduceCtorEq, or_false, false_or, not_loads_offset, or_assoc] at loads
  all_goals try replace loads := loads_define loads
  all_goals
    rcases loads with rfl | rfl | rfl | rfl | rfl | rfl | rfl | rfl | rfl | rfl | rfl | rfl |
      rfl | rfl | rfl | rfl | rfl | rfl | rfl | rfl
  all_goals first
    | exact .inl (by decide)
    | exact .inr (.inr rfl)
    | exact .inl (isSome_lookup_tempRegister fits)
    | exact .inl (isSome_lookup_pointerRegister _)
    | exact .inl (isSome_lookup_register _)
    | exact .inr (.inl (by simp [Command.lower, Command.body, Code.arithmetic, Code.compare,
        Code.call]))

/-- The bootstrap loads predefined names, its own return label and `Sys.init`. -/
theorem loads_bootstrap {name : String} (loads : .instr (.load (.name name)) ∈ Code.bootstrap) :
    (predefined.lookup name).isSome ∨ .label name ∈ Code.bootstrap ∨ name = "Sys.init" := by
  simp only [Code.bootstrap, Code.call, Code.saved, Code.pushD, Code.addr, Code.assign,
    Code.literal, Code.branchOn, List.flatMap_cons, List.flatMap_nil, List.append_nil,
    List.cons_append, List.nil_append, List.mem_cons, List.not_mem_nil, Piece.instr.injEq,
    Instr.load.injEq, Address.name.injEq, reduceCtorEq, or_false, false_or] at loads
  rcases loads with rfl | rfl | rfl | rfl | rfl | rfl | rfl | rfl | rfl | rfl | rfl | rfl | rfl |
    rfl | rfl | rfl | rfl | rfl | rfl | rfl | rfl | rfl | rfl | rfl
  all_goals first
    | exact .inl (by decide)
    | exact .inr (.inr rfl)
    | exact .inr (.inl (by simp [Code.bootstrap, Code.call]))

/-- A piece of the code of commands stands in the code of one of them, all of which stands in the
code of the commands. -/
theorem mem_codeFrom {q : Piece} :
    ∀ {serial : Nat} {cmds : List Command}, q ∈ codeFrom serial cmds →
      ∃ cmd ∈ cmds, ∃ at_, q ∈ cmd.lower at_ ∧ cmd.lower at_ ⊆ codeFrom serial cmds
  | _, [], member => by cases member
  | serial, cmd :: rest, member => by
    rw [codeFrom, List.mem_append] at member
    rcases member with own | later
    · exact ⟨cmd, List.mem_cons_self, serial, own, by rw [codeFrom]; exact List.subset_append_left _ _⟩
    · obtain ⟨other, inRest, at_, inLower, inside⟩ := mem_codeFrom later
      refine ⟨other, List.mem_cons_of_mem _ inRest, at_, inLower, ?_⟩
      rw [codeFrom]
      exact List.Subset.trans inside (List.subset_append_right _ _)

theorem mem_pieceStmts {st : Stmt} :
    ∀ {start : Nat} {pieces : List Piece}, some st ∈ pieceStmts start pieces →
      ∃ p ∈ pieces, ∃ pc, p.stmt pc = some st
  | _, [], member => by cases member
  | start, p :: rest, member => by
    rw [pieceStmts, List.mem_cons] at member
    rcases member with here | later
    · exact ⟨p, List.mem_cons_self, _, here.symm⟩
    · obtain ⟨q, inRest, pc, stmt⟩ := mem_pieceStmts later
      exact ⟨q, List.mem_cons_of_mem _ inRest, pc, stmt⟩

/-! ### Where a translated program's labels and code are -/

theorem fits_of_mem_commands {units : List SourceFile} (reads : ∀ u ∈ units, u.read = .ok u.commands)
    {cmd : Command} (member : cmd ∈ units.flatMap SourceFile.commands) : cmd.Fits := by
  rw [← map_snd_programView] at member
  obtain ⟨p, inView, rfl⟩ := List.mem_map.mp member
  exact fits_of_mem_programView reads inView

/-- A label that a command of a program puts in its code, whatever its comparison serial, stands
in the code of the program. -/
theorem label_mem_codeFrom {cmds : List Command} {cmd : Command} (member : cmd ∈ cmds)
    {name : String} (own : ∀ serial, .label name ∈ cmd.lower serial) :
    .label name ∈ codeFrom 0 cmds := by
  obtain ⟨at_, inside⟩ := lower_subset_codeFrom 0 member
  exact inside (own at_)

section Translated

variable {units : List SourceFile} {options : Options} {text file : String} {words : Array UInt16}
  (symbols : ∀ u ∈ units, isSymbol u.name = true) (translated : translate units options = .ok text)
  (code : programCode units options ≠ [])

include symbols translated code in
theorem label_entry_translate {pre post : List Piece} {name : String}
    (split : programCode units options = pre ++ .label name :: post) :
    (name, (codeWidth pre).toUInt16) ∈ labels (program (sourceLines [(file, text)])) := by
  rw [labels_eq_filterMap, stmts_translate symbols translated file code, split, pieceStmts_append,
    Nat.zero_add, pieceStmts]
  simp [Piece.stmt, labelEntry]

include symbols translated code in
/-- The labels the assembler reads from a translated text are the label pieces of its code. -/
theorem mem_labels_translate {name : String} :
    name ∈ (labels (program (sourceLines [(file, text)]))).map Prod.fst ↔
      .label name ∈ programCode units options := by
  constructor
  · intro named
    obtain ⟨⟨other, pc⟩, entry, same⟩ := List.mem_map.mp named
    subst same
    rw [labels_eq_filterMap, stmts_translate symbols translated file code] at entry
    obtain ⟨st, inStmts, found⟩ := List.mem_filterMap.mp entry
    rw [labelEntry_eq_some.mp found] at inStmts
    obtain ⟨p, inCode, at_, stmt⟩ := mem_pieceStmts inStmts
    cases p with
    | instr i => cases i <;> (try rename_i address; try cases address) <;> cases stmt
    | label other =>
      simp only [Piece.stmt, Option.some.injEq, Stmt.label.injEq] at stmt
      rw [← stmt.1]
      exact inCode
    | comment text => cases stmt
  · intro member
    obtain ⟨pre, post, split⟩ := List.append_of_mem member
    exact List.mem_map_of_mem (f := Prod.fst) (label_entry_translate symbols translated code split)

include symbols translated code in
/-- The symbols the program read from a translated text loads are those its code loads. -/
theorem loads_of_operand {name : String}
    (used : name ∈ operands (program (sourceLines [(file, text)]))) :
    .instr (.load (.name name)) ∈ programCode units options := by
  obtain ⟨line, member, stmt⟩ := mem_operands_iff.mp used
  have inStmts : some (Stmt.load (.symbol name)) ∈
      (program (sourceLines [(file, text)])).map Line.stmt := by
    rw [← stmt]
    exact List.mem_map_of_mem member
  rw [stmts_translate symbols translated file code] at inStmts
  obtain ⟨p, inCode, pc, pieceStmt⟩ := mem_pieceStmts inStmts
  cases p with
  | instr i =>
    cases i with
    | load address =>
      cases address with
      | number n => cases pieceStmt
      | name other =>
        simp only [Piece.stmt, Instr.stmt, Option.some.injEq, Stmt.load.injEq,
          Operand.symbol.injEq] at pieceStmt
        rwa [pieceStmt] at inCode
    | compute => cases pieceStmt
  | label other => cases pieceStmt
  | comment text => cases pieceStmt

variable (assembled : assemble file text = .ok words)

include symbols translated code assembled in
/-- The instructions of a translated program that assembles fit the ROM. -/
theorem length_instructions_translate :
    (instructions (symbolWord file text) (programCode units options)).length ≤ romSize := by
  have listed := words_translate symbols translated assembled code
  have fits := length_le_romSize (assembleReference_of_assemble assembled)
  rw [listed, List.length_map] at fits
  exact fits

include symbols translated code assembled in
/-- A label of a translated program that assembles has the word of the first instruction after
it. -/
theorem symbolWord_label {pre post : List Piece} {name : String}
    (split : programCode units options = pre ++ .label name :: post) :
    symbolWord file text name = (codeWidth pre).toUInt16 := by
  rw [symbolWord, address_label symbols translated assembled code split]

include symbols translated code assembled in
/-- Each stretch of a translated program's code stands in the words it assembles to from the word
of its first instruction. -/
theorem codeAt_translate {pre mid post : List Piece}
    (split : programCode units options = pre ++ mid ++ post) :
    CodeAt words (codeWidth pre).toUInt16 (instructions (symbolWord file text) mid) := by
  have fits := length_instructions_translate symbols translated code assembled
  have listed := words_translate symbols translated assembled code
  rw [split, instructions_append, instructions_append] at listed fits
  have placed := codeAt_words (instructions (symbolWord file text) pre)
    (instructions (symbolWord file text) mid) (instructions (symbolWord file text) post)
    (by simp only [List.length_append, romSize] at fits; omega)
  rw [← listed, Array.toArray_toList, length_instructions] at placed
  exact placed

end Translated

/-! ### The layout of a program that translates and assembles -/

/-- What the end-to-end run asks of a program beyond translating and assembling: every label a
jump names and every function a call names, `Sys.init` among them, is defined; no label takes the
name of a static; and the program has at most 240 distinct statics, whose cells then lie below the
stack. -/
structure Closed (units : List SourceFile) (options : Options) : Prop where
  targets : ∀ kind name, .branch kind name ∈ units.flatMap SourceFile.commands →
    .branch .label name ∈ units.flatMap SourceFile.commands
  called : ∀ name args tag, .call name args tag ∈ units.flatMap SourceFile.commands →
    ∃ locals, .define name locals ∈ units.flatMap SourceFile.commands
  sysInit : ∃ locals, .define "Sys.init" locals ∈ units.flatMap SourceFile.commands
  unshadowed : ∀ name ∈ staticNames (units.flatMap SourceFile.commands),
    .label name ∉ programCode units options
  fewStatics : (staticNames (units.flatMap SourceFile.commands)).eraseDups.length ≤ 240

theorem lookup_predefined_of_unbound {prog : List Line} {name : String}
    (free : unbound prog name = true) : predefined.lookup name = none := by
  simp only [unbound, bindings, List.lookup_append, Option.isNone_iff_eq_none,
    Option.or_eq_none_iff] at free
  exact free.1

section Program

variable {units : List SourceFile} {options : Options} {text file : String} {words : Array UInt16}
  (symbols : ∀ u ∈ units, isSymbol u.name = true) (translated : translate units options = .ok text)
  (assembled : assemble file text = .ok words) (bootstrap : options.bootstrap = true)

theorem programCode_bootstrap (bootstrap : options.bootstrap = true) :
    programCode units options = Code.bootstrap ++ codeFrom 0 (units.flatMap SourceFile.commands) := by
  rw [programCode, bootstrap, if_pos rfl]

theorem programCode_ne_nil (bootstrap : options.bootstrap = true) : programCode units options ≠ [] := by
  rw [programCode_bootstrap bootstrap]
  simp [Code.bootstrap]

include symbols translated bootstrap in
/-- In a closed program, the variables of the assembled code are statics: every other symbol it
loads is predefined or a label. -/
theorem statics_of_allVariables (closed : Closed units options) {name : String}
    (allocated : name ∈ allVariables (program (sourceLines [(file, text)]))) :
    name ∈ staticNames (units.flatMap SourceFile.commands) := by
  have code : programCode units options ≠ [] := programCode_ne_nil bootstrap
  have reads := (translate_eq_ok translated).1
  obtain ⟨used, free⟩ := mem_allVariables_iff.mp allocated
  have plain := lookup_predefined_of_unbound free
  -- a variable is no label of the code: not the bootstrap's, not a command's, no function's entry
  have unlabelled : .label name ∉ Code.bootstrap ++ codeFrom 0 (units.flatMap SourceFile.commands) := by
    rw [← programCode_bootstrap bootstrap, ← mem_labels_translate symbols translated code]
    exact (unbound_iff plain).mp free
  have notOwn : ∀ {cmd : Command}, cmd ∈ units.flatMap SourceFile.commands →
      ¬ ∀ serial, .label name ∈ cmd.lower serial := fun member own =>
    unlabelled (List.mem_append_right _ (label_mem_codeFrom member own))
  have undefined : ∀ locals, .define name locals ∉ units.flatMap SourceFile.commands :=
    fun _ defined => notOwn defined fun _ => by simp [Command.lower, Command.body, Code.define]
  have loads := loads_of_operand symbols translated code used
  rw [programCode_bootstrap bootstrap, List.mem_append] at loads
  rcases loads with boot | body
  · rcases loads_bootstrap boot with predefinedName | own | rfl
    · rw [plain] at predefinedName
      cases predefinedName
    · exact absurd (List.mem_append_left _ own) unlabelled
    · obtain ⟨locals, defined⟩ := closed.sysInit
      exact absurd defined (undefined locals)
  · obtain ⟨cmd, member, at_, inLower, inside⟩ := mem_codeFrom body
    rcases loads_lower (fits_of_mem_commands reads member) at_ inLower with predefinedName | own | named
    · rw [plain] at predefinedName
      cases predefinedName
    · exact absurd (List.mem_append_right _ (inside own)) unlabelled
    · -- the symbol the command names: a static, or a label or function the program defines
      cases cmd with
      | memory access slot =>
        cases slot <;> simp only [Command.symbol?, reduceCtorEq, Option.some.injEq] at named
        subst named
        exact List.mem_filterMap.mpr ⟨_, member, rfl⟩
      | branch kind label =>
        have jumps : kind ≠ .label := by
          rintro rfl
          simp [Command.symbol?] at named
        cases kind <;> simp only [Command.symbol?, Option.some.injEq] at named
        all_goals first
          | exact absurd rfl jumps
          | subst named
            exact absurd (fun _ => by simp [Command.lower, Command.body])
              (notOwn (closed.targets _ _ member))
      | call function args tag =>
        simp only [Command.symbol?, Option.some.injEq] at named
        subst named
        obtain ⟨locals, defined⟩ := closed.called _ _ _ member
        exact absurd defined (undefined locals)
      | arithmetic | define | ret => simp [Command.symbol?] at named

include symbols translated assembled bootstrap in
/-- The bootstrap stands from word 0 on. -/
theorem codeAt_bootstrap :
    CodeAt words 0 (instructions (symbolWord file text) Code.bootstrap) := by
  have split : programCode units options =
      [] ++ Code.bootstrap ++ codeFrom 0 (units.flatMap SourceFile.commands) :=
    programCode_bootstrap bootstrap
  exact codeAt_translate symbols translated (programCode_ne_nil bootstrap) assembled split

include symbols translated assembled bootstrap in
/-- The bootstrap returns to the code of the first command. -/
theorem symbolWord_bootstrapReturn :
    symbolWord file text Code.bootstrapReturn = codeStart (units.flatMap SourceFile.commands) 0 := by
  have split : programCode units options =
      Code.bootstrap.dropLast ++ .label Code.bootstrapReturn :: codeFrom 0 (units.flatMap SourceFile.commands) := by
    rw [programCode_bootstrap bootstrap]
    rfl
  rw [symbolWord_label symbols translated (programCode_ne_nil bootstrap) assembled split, codeStart,
    List.take_zero]
  rfl

include symbols translated assembled bootstrap in
/-- The code of each command stands from the word of its position on. -/
theorem codeAt_command {p : Nat} {cmd : Command} (at_ : (units.flatMap SourceFile.commands)[p]? = some cmd) :
    CodeAt words (codeStart (units.flatMap SourceFile.commands) p)
      (instructions (symbolWord file text)
        (cmd.lower (comparisons ((units.flatMap SourceFile.commands).take p)))) := by
  have split : programCode units options =
      Code.bootstrap ++ codeFrom 0 (units.flatMap SourceFile.commands) :=
    programCode_bootstrap bootstrap
  rw [codeFrom_split at_, ← List.append_assoc, ← List.append_assoc] at split
  have placed := codeAt_translate symbols translated (programCode_ne_nil bootstrap) assembled split
  rwa [codeWidth_append] at placed

include symbols translated assembled bootstrap in
/-- A label in the code of the command at `p` has the word of the code before it. -/
theorem symbolWord_lower_label {p : Nat} {cmd : Command}
    (at_ : (units.flatMap SourceFile.commands)[p]? = some cmd) (front back : List Piece) {name : String}
    (shape : cmd.lower (comparisons ((units.flatMap SourceFile.commands).take p)) =
      front ++ .label name :: back) :
    symbolWord file text name = codeStart (units.flatMap SourceFile.commands) p + (codeWidth front).toUInt16 := by
  have split : programCode units options =
      Code.bootstrap ++ codeFrom 0 (units.flatMap SourceFile.commands) :=
    programCode_bootstrap bootstrap
  rw [codeFrom_split at_, shape] at split
  have arranged : programCode units options =
      (Code.bootstrap ++ codeFrom 0 ((units.flatMap SourceFile.commands).take p) ++ front) ++
        .label name :: (back ++ codeFrom (comparisons ((units.flatMap SourceFile.commands).take (p + 1)))
          ((units.flatMap SourceFile.commands).drop (p + 1))) := by
    rw [split]
    simp
  rw [symbolWord_label symbols translated (programCode_ne_nil bootstrap) assembled arranged, codeStart,
    codeWidth_append, codeWidth_append]
  simp

include symbols translated assembled bootstrap in
/-- A `label` command is bound to the word of its position. -/
theorem symbolWord_labelCommand {p : Nat} {name : String}
    (at_ : (units.flatMap SourceFile.commands)[p]? = some (.branch .label name)) :
    symbolWord file text name = codeStart (units.flatMap SourceFile.commands) p := by
  rw [symbolWord_lower_label symbols translated assembled bootstrap at_ [.comment _] [] rfl]
  simp [codeWidth, Piece.width]

include symbols translated assembled bootstrap in
/-- A function is bound to the word of its definition. -/
theorem symbolWord_entry {p : Nat} {name : String} {locals : UInt16}
    (at_ : (units.flatMap SourceFile.commands)[p]? = some (.define name locals)) :
    symbolWord file text name = codeStart (units.flatMap SourceFile.commands) p := by
  rw [symbolWord_lower_label symbols translated assembled bootstrap at_ [.comment _] _ rfl]
  simp [codeWidth, Piece.width]

include symbols translated assembled bootstrap in
/-- A call's return label is bound to the word of the next position. -/
theorem symbolWord_returnTag {p : Nat} {name tag : String} {args : UInt16}
    (at_ : (units.flatMap SourceFile.commands)[p]? = some (.call name args tag)) :
    symbolWord file text tag = codeStart (units.flatMap SourceFile.commands) (p + 1) := by
  -- the return label is the last piece of the call's code
  have shape : (Command.call name args tag).lower (comparisons ((units.flatMap SourceFile.commands).take p)) =
      ((Command.call name args tag).lower
        (comparisons ((units.flatMap SourceFile.commands).take p))).dropLast ++ [.label tag] := rfl
  rw [symbolWord_lower_label symbols translated assembled bootstrap at_ _ _ shape,
    codeStart_succ at_ (symbolWord file text), length_instructions, shape, codeWidth_append]
  simp [codeWidth, Piece.width]

/-- The true branch of a comparison starts 12 words into its code, its end 15 words in. -/
theorem codeWidth_compare_take (id : Nat) (jump : Jump) :
    codeWidth ((Code.compare id jump).take 12) = 12 ∧ codeWidth ((Code.compare id jump).take 16) = 15 := by
  simp [Code.compare, Code.unary, codeWidth, Piece.width, Code.addr, Code.assign, Code.branchOn]

include symbols translated assembled bootstrap in
/-- A comparison's labels are bound 12 and 15 words into its code. -/
theorem compareLabels_translate {p : Nat} {op : ArithOp}
    (at_ : (units.flatMap SourceFile.commands)[p]? = some (.arithmetic op))
    (compares : op.comparison?.isSome) :
    CompareLabels (symbolWord file text) (comparisons ((units.flatMap SourceFile.commands).take p))
      (codeStart (units.flatMap SourceFile.commands) p) := by
  obtain ⟨jump, body⟩ : ∃ jump, ∀ id, Code.arithmetic id op = Code.compare id jump := by
    cases op <;> simp only [ArithOp.comparison?, Option.isSome_none, Bool.false_eq_true] at compares
    all_goals exact ⟨_, fun _ => rfl⟩
  -- the true branch's label follows the first 12 pieces of a comparison, the end's label the first 16
  constructor
  · rw [symbolWord_lower_label symbols translated assembled bootstrap at_
      (.comment _ :: (Code.compare _ jump).take 12) ((Code.compare _ jump).drop 13)
      (by rw [Command.lower, Command.body, body]; rfl)]
    simp only [codeWidth, Piece.width, codeWidth_compare_take, Nat.zero_add]
    rfl
  · rw [symbolWord_lower_label symbols translated assembled bootstrap at_
      (.comment _ :: (Code.compare _ jump).take 16) []
      (by rw [Command.lower, Command.body, body]; rfl)]
    simp only [codeWidth, Piece.width, codeWidth_compare_take, Nat.zero_add]
    rfl

variable (file) in
include symbols translated bootstrap in
/-- In a closed program every static is a variable of the assembled code. -/
theorem allVariables_of_static (closed : Closed units options) {name : String}
    (static : name ∈ staticNames (units.flatMap SourceFile.commands)) :
    name ∈ allVariables (program (sourceLines [(file, text)])) := by
  have reads := (translate_eq_ok translated).1
  obtain ⟨access, member⟩ := mem_staticNames.mp static
  obtain ⟨u, -, i, named⟩ := static_named reads member
  have plain := predefined_lookup_of_mem (by decide) (named ▸ dot_mem_static u.name i)
  rw [mem_allVariables_iff, unbound_iff plain,
    mem_labels_translate symbols translated (programCode_ne_nil bootstrap)]
  exact ⟨operand_translate symbols translated file member, closed.unshadowed _ static⟩

variable (file) in
include symbols translated bootstrap in
/-- A closed program has at most 240 variables: they are its statics, each once. -/
theorem allVariables_length_le (closed : Closed units options) :
    (allVariables (program (sourceLines [(file, text)]))).length ≤ 240 := by
  have within : allVariables (program (sourceLines [(file, text)])) ⊆
      (staticNames (units.flatMap SourceFile.commands)).eraseDups := fun _ allocated =>
    List.mem_eraseDups.mpr (statics_of_allVariables symbols translated bootstrap closed allocated)
  have distinct : (allVariables (program (sourceLines [(file, text)]))).Nodup := nodup_eraseDups _
  exact Nat.le_trans (List.subperm_of_subset distinct within).length_le closed.fewStatics

variable (file) in
include translated bootstrap in
/-- A closed, well-named program that leaves the translator its names and whose code fits the ROM
assembles once translated with the bootstrap: every line reads, no label is defined twice or
predefined, and its at most 240 variables lie far below the screen map. -/
theorem assemble_translate_ok (named : WellNamed units) (free : Unreserved units)
    (closed : Closed units options) (fits : codeWidth (programCode units options) < romSize) :
    ∃ words, assemble file text = .ok words := by
  have noRead := firstIssue_readError_translate named.unitSymbols translated file fits
  have noClash : firstIssue labelClash [] (program (sourceLines [(file, text)])) = none := by
    apply firstIssue_labelClash
    · rw [List.nil_append, labels_program]
      exact nodup_definedLabels_translate named free translated
    · rw [labels_program]
      exact lookup_definedLabels_translate named free translated
  have few := allVariables_length_le file named.unitSymbols translated bootstrap closed
  have noOverflow : (program (sourceLines [(file, text)])).findSome?
      (overflow (program (sourceLines [(file, text)]))) = none := by
    rw [List.findSome?_eq_none_iff]
    intro line member
    unfold overflow
    split
    · rename_i name loads
      -- a free operand is a variable, and the variables take the words 16 up to 255
      refine if_neg fun ⟨unboundName, reached⟩ => ?_
      have used := mem_operands_iff.mpr ⟨line, member, loads⟩
      obtain ⟨-, high⟩ := address_bounds (mem_allVariables _ _ used unboundName)
      simp only [variableBase, variableLimit] at high reached
      omega
    · rfl
  obtain ⟨listed, reference⟩ : ∃ listed, assembleReference [(file, text)] = .ok listed :=
    ⟨_, by simp only [assembleReference, noRead, noClash, noOverflow]; rfl⟩
  have mapped := assemble_reference file text
  rw [reference] at mapped
  cases result : assemble file text with
  | error e => simp [result, Except.map] at mapped
  | ok words => exact ⟨words, rfl⟩

variable (file) in
include symbols translated bootstrap in
/-- The cell of a static of a closed program is its variable's word, from 16 up to 255. -/
theorem symbolWord_static (closed : Closed units options) {name : String}
    (static : name ∈ staticNames (units.flatMap SourceFile.commands)) :
    (symbolWord file text name).toNat = address (program (sourceLines [(file, text)])) name ∧
      16 ≤ address (program (sourceLines [(file, text)])) name ∧
      address (program (sourceLines [(file, text)])) name < 256 := by
  obtain ⟨low, high⟩ := address_bounds (allVariables_of_static file symbols translated bootstrap closed static)
  have few := allVariables_length_le file symbols translated bootstrap closed
  simp only [variableBase] at low high
  refine ⟨?_, low, by omega⟩
  simp only [symbolWord, Nat.toUInt16_eq, UInt16.toNat_ofNat']
  omega

include symbols translated assembled bootstrap in
/-- A closed program that translates with the bootstrap and assembles is laid out as the
simulation reads it: the code of position `p` starts at `codeStart p`, each symbol at the word the
assembler binds it to. -/
theorem layout_translate (closed : Closed units options) :
    Layout (units.flatMap SourceFile.commands) words (symbolWord file text)
      (codeStart (units.flatMap SourceFile.commands)) := by
  have reads := (translate_eq_ok translated).1
  have cell := fun name (static : name ∈ staticNames (units.flatMap SourceFile.commands)) =>
    symbolWord_static file symbols translated bootstrap closed static
  refine
    { resolution := resolution_of_assembled (assembleReference_of_assemble assembled)
      fits := fun _ member => fits_of_mem_commands reads member
      bootstrap := codeAt_bootstrap symbols translated assembled bootstrap
      bootReturn := symbolWord_bootstrapReturn symbols translated assembled bootstrap
      placed := fun _ _ at_ => codeAt_command symbols translated assembled bootstrap at_
      next := fun _ _ at_ => codeStart_succ at_ _
      label := fun _ _ at_ => symbolWord_labelCommand symbols translated assembled bootstrap at_
      entry := fun _ _ _ at_ => symbolWord_entry symbols translated assembled bootstrap at_
      returns := fun _ _ _ _ at_ => symbolWord_returnTag symbols translated assembled bootstrap at_
      compares := fun _ _ at_ => compareLabels_translate symbols translated assembled bootstrap at_
      cells := fun name static => ?_
      apart := fun name static other static' same => ?_ }
  · obtain ⟨word, low, high⟩ := cell name static
    omega
  · -- both cells lie below 256, so the words are the variables' addresses
    obtain ⟨word, -, high⟩ := cell name static
    obtain ⟨word', -, high'⟩ := cell other static'
    apply address_injective (allVariables_of_static file symbols translated bootstrap closed static)
      (allVariables_of_static file symbols translated bootstrap closed static')
    have same' := congrArg UInt16.toNat same
    omega

end Program

end Hack.Vm
