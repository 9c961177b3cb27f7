import Hack.Vm.Scope
import Mathlib.Data.List.Basic
/-! The grammar of VM lines, rule by rule, and that reading a line gives exactly what it assigns. -/

set_option autoImplicit false

namespace Hack.Vm

/-! ### Reading through `Except` -/

@[simp] theorem pure_eq_ok {ε α : Type} (a : α) : (pure a : Except ε α) = .ok a := rfl

@[simp] theorem throw_eq_error {ε α : Type} (e : ε) : (throw e : Except ε α) = .error e := rfl

@[simp] theorem ok_bind {ε α β : Type} (a : α) (f : α → Except ε β) : (Except.ok a >>= f) = f a :=
  rfl

@[simp] theorem error_bind {ε α β : Type} (e : ε) (f : α → Except ε β) :
    (Except.error e >>= f : Except ε β) = .error e := rfl

/-! ### Keywords, operands and ranges -/

/-- The seventeen keywords of VM commands, case-sensitive. -/
def keywords : List String :=
  ["add", "sub", "neg", "eq", "gt", "lt", "and", "or", "not", "push", "pop", "label", "goto",
   "if-goto", "function", "call", "return"]

/-- How many operands the command of a keyword takes. -/
def arity : String → Nat
  | "push" | "pop" | "function" | "call" => 2
  | "label" | "goto" | "if-goto" => 1
  | _ => 0

/-- The error of a keyword given the wrong number of operands: a command that takes none names
itself, any other gives the count it takes and the count it got. -/
def countError (head : String) (got : Nat) : Error :=
  if arity head = 0 then .unexpectedOperand head else .operandCount head (arity head) got

/-- A number operand: a nonempty run of ASCII digits whose value fits in sixteen bits, and that
value. -/
def NumberText (text : String) (n : UInt16) : Prop :=
  Text.isDigits text.toList = true ∧ Text.digitsValue 10 text.toList = n.toNat

/-- The indices a segment admits: at most 32767 for the constant and frame segments, below 8 for
temp, below 2 for pointer, any for static. -/
def Segment.Admits : Segment → Nat → Prop
  | .temp, i => i < 8
  | .pointer, i => i < 2
  | .static, _ => True
  | .constant, i | .locals, i | .argument, i | .this, i | .that, i => i ≤ 32767

/-- The slot of a segment and an index in a file: a static is named `File.i`. -/
def Segment.slotIn (file : String) : Segment → UInt16 → Slot
  | .constant, i => .constant i
  | .static, i => .static (file ++ "." ++ toString i.toNat)
  | .temp, i => .temp i
  | .pointer, i => .pointer i
  | .locals, i => .frame .locals i
  | .argument, i => .frame .argument i
  | .this, i => .frame .this i
  | .that, i => .frame .that i

/-! ### The grammar -/

/-- What the words of a VM line read as in the scope `s`. -/
inductive CommandGrammar (s : Scope) : List String → Except Error (Option Command) → Prop
  | blank : CommandGrammar s [] (.ok none)
  | unknown {head : String} {args : List String} (other : head ∉ keywords) :
      CommandGrammar s (head :: args) (.ok none)
  | miscounted {head : String} {args : List String} (keyword : head ∈ keywords)
      (count : args.length ≠ arity head) :
      CommandGrammar s (head :: args) (.error (countError head args.length))
  | arithmetic (op : ArithOp) : CommandGrammar s [op.keyword] (.ok (some (.arithmetic op)))
  | ret : CommandGrammar s ["return"] (.ok (some .ret))
  | unknownSegment (access : Access) {segment index : String}
      (unknown : ∀ seg : Segment, seg.keyword ≠ segment) :
      CommandGrammar s [access.keyword, segment, index] (.error (.unknownSegment segment))
  | memoryNumber (access : Access) (segment : Segment) {index : String}
      (notNumber : ∀ n, ¬ NumberText index n) :
      CommandGrammar s [access.keyword, segment.keyword, index] (.error (.invalidNumber index))
  | popConstant {index : String} {n : UInt16} (number : NumberText index n) :
      CommandGrammar s ["pop", "constant", index] (.error .popConstant)
  | outOfRange (access : Access) (segment : Segment) {index : String} {n : UInt16}
      (number : NumberText index n) (notPopConstant : ¬ (access = .pop ∧ segment = .constant))
      (outside : ¬ segment.Admits n.toNat) :
      CommandGrammar s [access.keyword, segment.keyword, index]
        (.error (.indexOutOfRange segment n))
  | memory (access : Access) (segment : Segment) {index : String} {n : UInt16}
      (number : NumberText index n) (notPopConstant : ¬ (access = .pop ∧ segment = .constant))
      (admitted : segment.Admits n.toNat) :
      CommandGrammar s [access.keyword, segment.keyword, index]
        (.ok (some (.memory access (segment.slotIn s.file n))))
  | branchName (kind : BranchKind) {label : String} (notSymbol : isSymbol label = false) :
      CommandGrammar s [kind.keyword, label] (.error (.invalidSymbol label))
  | branch (kind : BranchKind) {label : String} (symbol : isSymbol label = true) :
      CommandGrammar s [kind.keyword, label]
        (.ok (some (.branch kind (s.function ++ "$" ++ label))))
  | functionName {name locals : String} (notSymbol : isSymbol name = false) :
      CommandGrammar s ["function", name, locals] (.error (.invalidSymbol name))
  | functionNumber {name locals : String} (symbol : isSymbol name = true)
      (notNumber : ∀ n, ¬ NumberText locals n) :
      CommandGrammar s ["function", name, locals] (.error (.invalidNumber locals))
  | define {name locals : String} {n : UInt16} (symbol : isSymbol name = true)
      (number : NumberText locals n) :
      CommandGrammar s ["function", name, locals] (.ok (some (.define name n)))
  | callName {name count : String} (notSymbol : isSymbol name = false) :
      CommandGrammar s ["call", name, count] (.error (.invalidSymbol name))
  | callNumber {name count : String} (symbol : isSymbol name = true)
      (notNumber : ∀ n, ¬ NumberText count n) :
      CommandGrammar s ["call", name, count] (.error (.invalidNumber count))
  | tooManyArguments {name count : String} {n : UInt16} (symbol : isSymbol name = true)
      (number : NumberText count n) (large : 32762 < n.toNat) :
      CommandGrammar s ["call", name, count] (.error (.tooManyArguments n))
  | call {name count : String} {n : UInt16} (symbol : isSymbol name = true)
      (number : NumberText count n) (fits : n.toNat ≤ 32762) :
      CommandGrammar s ["call", name, count]
        (.ok (some (.call name n (s.function ++ "$ret." ++ toString s.calls))))

/-! ### Keyword lookups -/

theorem ArithOp.ofKeyword?_keyword (op : ArithOp) : ArithOp.ofKeyword? op.keyword = some op := by
  cases op <;> rfl

theorem ArithOp.keyword_of_ofKeyword? {text : String} {op : ArithOp}
    (found : ArithOp.ofKeyword? text = some op) : op.keyword = text := by
  have named := List.find?_some found
  exact beq_iff_eq.mp named

theorem ArithOp.ofKeyword?_access (access : Access) : ArithOp.ofKeyword? access.keyword = none := by
  cases access <;> rfl

theorem ArithOp.ofKeyword?_branch (kind : BranchKind) : ArithOp.ofKeyword? kind.keyword = none := by
  cases kind <;> rfl

theorem Access.ofKeyword?_keyword (access : Access) : Access.ofKeyword? access.keyword = some access := by
  cases access <;> rfl

theorem Access.keyword_of_ofKeyword? {text : String} {access : Access}
    (found : Access.ofKeyword? text = some access) : access.keyword = text := by
  unfold Access.ofKeyword? at found
  split at found <;> cases found <;> rfl

theorem Access.ofKeyword?_branch (kind : BranchKind) : Access.ofKeyword? kind.keyword = none := by
  cases kind <;> rfl

theorem BranchKind.ofKeyword?_keyword (kind : BranchKind) :
    BranchKind.ofKeyword? kind.keyword = some kind := by
  cases kind <;> rfl

theorem BranchKind.keyword_of_ofKeyword? {text : String} {kind : BranchKind}
    (found : BranchKind.ofKeyword? text = some kind) : kind.keyword = text := by
  unfold BranchKind.ofKeyword? at found
  split at found <;> cases found <;> rfl

theorem Segment.ofKeyword?_keyword (segment : Segment) :
    Segment.ofKeyword? segment.keyword = some segment := by
  cases segment <;> rfl

theorem Segment.ofKeyword?_eq_none {text : String} (unknown : ∀ segment : Segment, segment.keyword ≠ text) :
    Segment.ofKeyword? text = none := by
  cases found : Segment.ofKeyword? text with
  | none => rfl
  | some segment =>
    have named := List.find?_some found
    exact absurd (beq_iff_eq.mp named) (unknown segment)

theorem ArithOp.keyword_mem (op : ArithOp) : op.keyword ∈ keywords := by
  cases op <;> decide

theorem Access.keyword_mem (access : Access) : access.keyword ∈ keywords := by
  cases access <;> decide

theorem BranchKind.keyword_mem (kind : BranchKind) : kind.keyword ∈ keywords := by
  cases kind <;> decide

theorem arity_arith (op : ArithOp) : arity op.keyword = 0 := by
  cases op <;> rfl

theorem arity_access (access : Access) : arity access.keyword = 2 := by
  cases access <;> rfl

theorem arity_branch (kind : BranchKind) : arity kind.keyword = 1 := by
  cases kind <;> rfl

/-- Every keyword is found by one of the reader's lookups, or is `function`, `call` or `return`. -/
theorem keyword_cases {head : String} (keyword : head ∈ keywords) :
    (ArithOp.ofKeyword? head).isSome ∨ (Access.ofKeyword? head).isSome ∨
      (BranchKind.ofKeyword? head).isSome ∨ head = "function" ∨ head = "call" ∨ head = "return" := by
  simp only [keywords, List.mem_cons, List.not_mem_nil, or_false] at keyword
  rcases keyword with rfl | rfl | rfl | rfl | rfl | rfl | rfl | rfl | rfl | rfl | rfl | rfl | rfl |
    rfl | rfl | rfl | rfl <;> decide

/-! ### Operands -/

theorem readNumber_of_numberText {text : String} {n : UInt16} (number : NumberText text n) :
    readNumber text = .ok n := by
  obtain ⟨digits, value⟩ := number
  have small : n.toNat < 65536 := UInt16.toNat_lt_size n
  have read : Text.readDigits? text.toList >>= Text.wordOfNat? = some n := by
    simp only [Text.readDigits?, digits, if_true, Option.bind_eq_bind, Option.bind_some,
      Text.wordOfNat?, value, small, UInt16.ofNat_toNat]
  simp only [readNumber, read]

theorem numberText_of_readNumber {text : String} {n : UInt16} (read : readNumber text = .ok n) :
    NumberText text n := by
  unfold readNumber at read
  split at read
  · rename_i m found
    cases read
    simp only [Text.readDigits?, Option.bind_eq_bind] at found
    split at found
    · rename_i digits
      simp only [Option.bind_some, Text.wordOfNat?] at found
      split at found
      · rename_i fits
        cases found
        exact ⟨digits, (UInt16.toNat_ofNat_of_lt' fits).symm⟩
      · cases found
    · cases found
  · cases read

theorem readNumber_error {text : String} {e : Error} (read : readNumber text = .error e) :
    e = .invalidNumber text := by
  unfold readNumber at read
  split at read <;> cases read
  rfl

theorem readNumber_of_not_number {text : String} (notNumber : ∀ n, ¬ NumberText text n) :
    readNumber text = .error (.invalidNumber text) := by
  cases read : readNumber text with
  | ok n => exact absurd (numberText_of_readNumber read) (notNumber n)
  | error e => rw [readNumber_error read]

theorem readSymbol_of_isSymbol {text : String} (symbol : isSymbol text = true) :
    readSymbol text = .ok text := by
  simp [readSymbol, symbol]

theorem readSymbol_of_not_isSymbol {text : String} (notSymbol : isSymbol text = false) :
    readSymbol text = .error (.invalidSymbol text) := by
  simp [readSymbol, notSymbol]

theorem Scope.slot_of_admits (s : Scope) {access : Access} {segment : Segment} {n : UInt16}
    (notPopConstant : ¬ (access = .pop ∧ segment = .constant)) (admitted : segment.Admits n.toNat) :
    s.slot access segment n = .ok (segment.slotIn s.file n) := by
  cases segment <;> simp_all [Scope.slot, Segment.Admits, Segment.slotIn, loadMax]

theorem Scope.slot_of_outside (s : Scope) {access : Access} {segment : Segment} {n : UInt16}
    (notPopConstant : ¬ (access = .pop ∧ segment = .constant)) (outside : ¬ segment.Admits n.toNat) :
    s.slot access segment n = .error (.indexOutOfRange segment n) := by
  cases segment <;> simp_all [Scope.slot, Segment.Admits, loadMax]

/-! ### Each rule of the grammar is what the reader does -/

theorem readWords_unknown {s : Scope} {head : String} {args : List String} (other : head ∉ keywords) :
    s.readWords head args = .ok none := by
  have arith : ArithOp.ofKeyword? head = none := by
    cases found : ArithOp.ofKeyword? head with
    | none => rfl
    | some op => exact absurd (ArithOp.keyword_of_ofKeyword? found ▸ op.keyword_mem) other
  have access : Access.ofKeyword? head = none := by
    cases found : Access.ofKeyword? head with
    | none => rfl
    | some access => exact absurd (Access.keyword_of_ofKeyword? found ▸ access.keyword_mem) other
  have branch : BranchKind.ofKeyword? head = none := by
    cases found : BranchKind.ofKeyword? head with
    | none => rfl
    | some kind => exact absurd (BranchKind.keyword_of_ofKeyword? found ▸ kind.keyword_mem) other
  unfold Scope.readWords
  simp only [arith, access, branch]
  -- past the lookups only `function`, `call` and `return` remain, and they are keywords
  split
  case h_1 | h_2 | h_3 => exact absurd (by decide) other
  case h_4 => rfl

theorem readWords_miscounted {s : Scope} {head : String} {args : List String}
    (keyword : head ∈ keywords) (count : args.length ≠ arity head) :
    s.readWords head args = .error (countError head args.length) := by
  rcases keyword_cases keyword with isArith | isAccess | isBranch | rfl | rfl | rfl
  · obtain ⟨op, found⟩ := Option.isSome_iff_exists.mp isArith
    obtain rfl := ArithOp.keyword_of_ofKeyword? found
    have operands : args.isEmpty = false := by
      rw [arity_arith] at count
      cases args
      · exact absurd rfl count
      · rfl
    unfold Scope.readWords
    simp only [ArithOp.ofKeyword?_keyword, operands, countError, arity_arith]
    rfl
  · obtain ⟨access, found⟩ := Option.isSome_iff_exists.mp isAccess
    obtain rfl := Access.keyword_of_ofKeyword? found
    rw [arity_access] at count
    unfold Scope.readWords
    simp only [ArithOp.ofKeyword?_access, Access.ofKeyword?_keyword, expectOperands, count,
      if_false, error_bind, countError, arity_access]
    rfl
  · obtain ⟨kind, found⟩ := Option.isSome_iff_exists.mp isBranch
    obtain rfl := BranchKind.keyword_of_ofKeyword? found
    rw [arity_branch] at count
    unfold Scope.readWords
    simp only [ArithOp.ofKeyword?_branch, Access.ofKeyword?_branch, BranchKind.ofKeyword?_keyword,
      expectOperands, count, if_false, error_bind, countError, arity_branch]
    rfl
  · have miscounted : ¬ args.length = 2 := count
    unfold Scope.readWords
    simp only [expectOperands, miscounted, if_false, error_bind]
    rfl
  · have miscounted : ¬ args.length = 2 := count
    unfold Scope.readWords
    simp only [expectOperands, miscounted, if_false, error_bind]
    rfl
  · have operands : args.isEmpty = false := by
      cases args
      · exact absurd rfl count
      · rfl
    unfold Scope.readWords
    simp only [operands]
    rfl

/-- Words that start with an access keyword and name a segment read their index, then the slot. -/
theorem readWords_memory (s : Scope) (access : Access) (segment : Segment) (index : String) :
    s.readWords access.keyword [segment.keyword, index] =
      (readNumber index >>= fun i => s.slot access segment i >>= fun slot =>
        .ok (some (.memory access slot))) := by
  unfold Scope.readWords
  simp only [ArithOp.ofKeyword?_access, Access.ofKeyword?_keyword, expectOperands,
    List.length_cons, List.length_nil, if_true, ok_bind, Segment.ofKeyword?_keyword, pure_eq_ok]

/-- Words that start with a branch keyword read its label. -/
theorem readWords_branch (s : Scope) (kind : BranchKind) (label : String) :
    s.readWords kind.keyword [label] =
      (readSymbol label >>= fun label => .ok (some (.branch kind (s.function ++ "$" ++ label)))) := by
  unfold Scope.readWords
  simp only [ArithOp.ofKeyword?_branch, Access.ofKeyword?_branch, BranchKind.ofKeyword?_keyword,
    expectOperands, List.length_cons, List.length_nil, if_true, ok_bind]
  rfl

/-- A `function` line reads its name, then its number of locals. -/
theorem readWords_function (s : Scope) (name locals : String) :
    s.readWords "function" [name, locals] =
      (readSymbol name >>= fun name => readNumber locals >>= fun n =>
        .ok (some (.define name n))) := by
  unfold Scope.readWords
  simp only [expectOperands, List.length_cons, List.length_nil, if_true, ok_bind]
  rfl

/-- A `call` line reads its name, then its number of arguments, then checks that the frame fits. -/
theorem readWords_call (s : Scope) (name count : String) :
    s.readWords "call" [name, count] =
      (readSymbol name >>= fun name => readNumber count >>= fun n =>
        if n.toNat + frameSize > loadMax then .error (.tooManyArguments n)
        else .ok (some (.call name n (s.function ++ "$ret." ++ toString s.calls)))) := by
  unfold Scope.readWords
  simp only [expectOperands, List.length_cons, List.length_nil, if_true, ok_bind]
  rfl

theorem readWords_of_commandGrammar {s : Scope} {head : String} {args : List String}
    {result : Except Error (Option Command)} (reads : CommandGrammar s (head :: args) result) :
    s.readWords head args = result := by
  cases reads with
  | unknown other => exact readWords_unknown other
  | miscounted keyword count => exact readWords_miscounted keyword count
  | arithmetic op => cases op <;> rfl
  | ret => rfl
  | unknownSegment access unknown =>
    unfold Scope.readWords
    simp only [ArithOp.ofKeyword?_access, Access.ofKeyword?_keyword, expectOperands,
      List.length_cons, List.length_nil, if_true, ok_bind, Segment.ofKeyword?_eq_none unknown,
      throw_eq_error, error_bind]
  | memoryNumber access segment notNumber =>
    rw [readWords_memory, readNumber_of_not_number notNumber, error_bind]
  | popConstant number =>
    show s.readWords Access.pop.keyword [Segment.constant.keyword, _] = _
    rw [readWords_memory, readNumber_of_numberText number]
    rfl
  | outOfRange access segment number notPopConstant outside =>
    rw [readWords_memory, readNumber_of_numberText number, ok_bind,
      Scope.slot_of_outside s notPopConstant outside, error_bind]
  | memory access segment number notPopConstant admitted =>
    rw [readWords_memory, readNumber_of_numberText number, ok_bind,
      Scope.slot_of_admits s notPopConstant admitted, ok_bind]
  | branchName kind notSymbol =>
    rw [readWords_branch, readSymbol_of_not_isSymbol notSymbol, error_bind]
  | branch kind symbol =>
    rw [readWords_branch, readSymbol_of_isSymbol symbol, ok_bind]
  | functionName notSymbol =>
    rw [readWords_function, readSymbol_of_not_isSymbol notSymbol, error_bind]
  | functionNumber symbol notNumber =>
    rw [readWords_function, readSymbol_of_isSymbol symbol, ok_bind,
      readNumber_of_not_number notNumber, error_bind]
  | define symbol number =>
    rw [readWords_function, readSymbol_of_isSymbol symbol, ok_bind, readNumber_of_numberText number,
      ok_bind]
  | callName notSymbol =>
    rw [readWords_call, readSymbol_of_not_isSymbol notSymbol, error_bind]
  | callNumber symbol notNumber =>
    rw [readWords_call, readSymbol_of_isSymbol symbol, ok_bind, readNumber_of_not_number notNumber,
      error_bind]
  | @tooManyArguments name count n symbol number large =>
    have exceeds : n.toNat + frameSize > loadMax := by
      simp only [frameSize, loadMax]
      omega
    rw [readWords_call, readSymbol_of_isSymbol symbol, ok_bind, readNumber_of_numberText number,
      ok_bind, if_pos exceeds]
  | @call name count n symbol number fits =>
    have within : ¬ n.toNat + frameSize > loadMax := by
      simp only [frameSize, loadMax]
      omega
    rw [readWords_call, readSymbol_of_isSymbol symbol, ok_bind, readNumber_of_numberText number,
      ok_bind, if_neg within]

/-! ### Every line has a reading -/

theorem memory_total (s : Scope) (access : Access) (segment index : String) :
    ∃ result, CommandGrammar s [access.keyword, segment, index] result := by
  by_cases named : ∃ seg : Segment, seg.keyword = segment
  · obtain ⟨seg, rfl⟩ := named
    by_cases number : ∃ n, NumberText index n
    · obtain ⟨n, number⟩ := number
      by_cases popConstant : access = .pop ∧ seg = .constant
      · obtain ⟨rfl, rfl⟩ := popConstant
        exact ⟨_, .popConstant number⟩
      by_cases admitted : seg.Admits n.toNat
      · exact ⟨_, .memory access seg number popConstant admitted⟩
      · exact ⟨_, .outOfRange access seg number popConstant admitted⟩
    · exact ⟨_, .memoryNumber access seg fun n read => number ⟨n, read⟩⟩
  · exact ⟨_, .unknownSegment access fun seg same => named ⟨seg, same⟩⟩

theorem define_total (s : Scope) (name locals : String) :
    ∃ result, CommandGrammar s ["function", name, locals] result := by
  cases symbol : isSymbol name
  · exact ⟨_, .functionName symbol⟩
  by_cases number : ∃ n, NumberText locals n
  · obtain ⟨n, number⟩ := number
    exact ⟨_, .define symbol number⟩
  · exact ⟨_, .functionNumber symbol fun n read => number ⟨n, read⟩⟩

theorem call_total (s : Scope) (name count : String) :
    ∃ result, CommandGrammar s ["call", name, count] result := by
  cases symbol : isSymbol name
  · exact ⟨_, .callName symbol⟩
  by_cases number : ∃ n, NumberText count n
  · obtain ⟨n, number⟩ := number
    by_cases fits : n.toNat ≤ 32762
    · exact ⟨_, .call symbol number fits⟩
    · exact ⟨_, .tooManyArguments symbol number (Nat.lt_of_not_le fits)⟩
  · exact ⟨_, .callNumber symbol fun n read => number ⟨n, read⟩⟩

/-- The grammar gives every list of words a reading. -/
theorem commandGrammar_total (s : Scope) (words : List String) :
    ∃ result, CommandGrammar s words result := by
  cases words with
  | nil => exact ⟨_, .blank⟩
  | cons head args =>
    by_cases keyword : head ∈ keywords
    swap
    · exact ⟨_, .unknown keyword⟩
    by_cases count : args.length = arity head
    swap
    · exact ⟨_, .miscounted keyword count⟩
    -- with the count right, the operands have the shape the keyword's rules expect
    rcases keyword_cases keyword with isArith | isAccess | isBranch | rfl | rfl | rfl
    · obtain ⟨op, found⟩ := Option.isSome_iff_exists.mp isArith
      obtain rfl := ArithOp.keyword_of_ofKeyword? found
      rw [arity_arith, List.length_eq_zero_iff] at count
      subst count
      exact ⟨_, .arithmetic op⟩
    · obtain ⟨access, found⟩ := Option.isSome_iff_exists.mp isAccess
      obtain rfl := Access.keyword_of_ofKeyword? found
      rw [arity_access] at count
      obtain ⟨segment, index, rfl⟩ := List.length_eq_two.mp count
      exact memory_total s access segment index
    · obtain ⟨kind, found⟩ := Option.isSome_iff_exists.mp isBranch
      obtain ⟨rfl⟩ := BranchKind.keyword_of_ofKeyword? found
      rw [arity_branch] at count
      obtain ⟨label, rfl⟩ := List.length_eq_one_iff.mp count
      cases symbol : isSymbol label
      · exact ⟨_, .branchName kind symbol⟩
      · exact ⟨_, .branch kind symbol⟩
    · obtain ⟨name, locals, rfl⟩ := List.length_eq_two.mp count
      exact define_total s name locals
    · obtain ⟨name, args, rfl⟩ := List.length_eq_two.mp count
      exact call_total s name args
    · have none : args = [] := List.length_eq_zero_iff.mp count
      subst none
      exact ⟨_, .ret⟩

/-- What the reader gives for a keyword and its operands is what the grammar assigns to them, so
a fact about every command read follows rule by rule. -/
theorem commandGrammar_of_readWords {s : Scope} {head : String} {args : List String}
    {result : Except Error (Option Command)} (read : s.readWords head args = result) :
    CommandGrammar s (head :: args) result := by
  obtain ⟨assigned, reads⟩ := commandGrammar_total s (head :: args)
  have same : assigned = result := (readWords_of_commandGrammar reads).symm.trans read
  rwa [same] at reads

theorem Scope.read_of_commandGrammar {s : Scope} {line : String}
    {result : Except Error (Option Command)}
    (reads : CommandGrammar s (Text.words (Text.stripComment line)) result) :
    s.read line = result := by
  unfold Scope.read
  split
  · rename_i blank
    rw [blank] at reads
    cases reads
    rfl
  · rename_i head args split
    rw [split] at reads
    exact readWords_of_commandGrammar reads

/-- Reading a VM line in any scope gives exactly what the grammar assigns to its words: no command
for no words or an unknown first word; for a keyword, its command exactly when the operand count,
the segment or names, the numbers and the ranges are right and it is no `pop constant`, with the
global names of the scope; else the error of the first check that fails, in that order. -/
theorem Scope.read_eq_iff_commandGrammar (s : Scope) (line : String)
    (result : Except Error (Option Command)) :
    s.read line = result ↔ CommandGrammar s (Text.words (Text.stripComment line)) result := by
  constructor
  · rintro rfl
    obtain ⟨result, reads⟩ := commandGrammar_total s (Text.words (Text.stripComment line))
    rwa [Scope.read_of_commandGrammar reads]
  · exact Scope.read_of_commandGrammar

-- the number is checked before the range: `pop constant 70000` is refused for its number
example : (Scope.init "Main").read "pop constant 70000" = .error (.invalidNumber "70000") := rfl

example : (Scope.init "Main").read "  call Math.max 2 // x" =
    .ok (some (.call "Math.max" 2 "Main.__DEFAULT$ret.0")) := rfl

end Hack.Vm
