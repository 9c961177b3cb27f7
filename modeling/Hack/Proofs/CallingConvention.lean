import Hack.Proofs.Execution
import Hack.Isa.Symbol
import Hack.Vm.Code
/-! The calling convention on the machine: what a call and a return leave, block by block, and a
callee that keeps its frame resuming its caller. -/

set_option autoImplicit false


namespace Hack.Machine

/-- The machine after a push onto the VM stack at `sp`: the word at `sp` takes `v` and `SP` takes
`sp + 1`. -/
def pushed (m : Machine) (sp v : UInt16) : Machine :=
  (m.set 0 (sp + 1)).set sp v

section Pushed

variable (m : Machine) (sp v a d pc : UInt16)

@[simp] theorem pushed_withRegs :
    (m.withRegs a d pc).pushed sp v = (m.pushed sp v).withRegs a d pc := rfl

@[simp] theorem get_pushed_self : (m.pushed sp v).get sp = v := get_set_self _ _ _

theorem get_pushed_sp (apart : sp.toNat % 32768 ≠ 0) : (m.pushed sp v).get 0 = sp + 1 := by
  rw [pushed, get_set_of_ne _ _ _ _ apart, get_set_self]

/-- A push above the registers leaves the registers other than `SP` as they are. -/
theorem get_pushed_register (r : UInt16) (notSp : 0 < r.toNat) (register : r.toNat < 16)
    (low : 16 ≤ sp.toNat) (high : sp.toNat < 32768) : (m.pushed sp v).get r = m.get r := by
  rw [pushed, get_set_of_ne _ sp r v (by omega), get_set_of_ne _ 0 r (sp + 1) (by simp; omega)]

theorem get_pushed_other (x : UInt16) (notSp : x.toNat % 32768 ≠ 0)
    (notTop : sp.toNat % 32768 ≠ x.toNat % 32768) : (m.pushed sp v).get x = m.get x := by
  rw [pushed, get_set_of_ne _ _ _ _ notTop, get_set_of_ne _ _ _ _ (by simpa using notSp.symm)]

end Pushed

end Hack.Machine

namespace Hack.Vm

open Machine

/-- The machine instruction of an assembly instruction, with its symbols resolved by `addr`. -/
def Instr.resolve (addr : String → UInt16) : Instr → Inst
  | .load (.number n) => .load n.toUInt16
  | .load (.name s) => .load (addr s)
  | .compute dest comp jump => .compute dest comp jump

/-- The instructions of generated code: labels and comments take no word. -/
def instructions (addr : String → UInt16) (pieces : List Piece) : List Inst :=
  pieces.filterMap fun
    | .instr i => some (i.resolve addr)
    | _ => none

/-- What the symbol table of an assembled program promises: the predefined names keep their
addresses, and every address fits a load. -/
structure Resolution (addr : String → UInt16) : Prop where
  keeps : ∀ name a, List.lookup name predefined = some a → addr name = a
  fits : ∀ name, (addr name).toNat < 32768

/-- A map that keeps the predefined names, and sends every other name to a word that fits a load,
is such a table. -/
theorem Resolution.of_lookup (addr : String → UInt16)
    (keeps : ∀ name a, List.lookup name predefined = some a → addr name = a)
    (others : ∀ name, List.lookup name predefined = none → (addr name).toNat < 32768) :
    Resolution addr := by
  refine ⟨keeps, fun name => ?_⟩
  cases found : List.lookup name predefined with
  | none => exact others name found
  | some a =>
    rw [keeps name a found]
    exact predefined_lt name a found

@[simp] theorem instructions_append (addr : String → UInt16) (xs ys : List Piece) :
    instructions addr (xs ++ ys) = instructions addr xs ++ instructions addr ys := by
  simp [instructions]

/-- The words of a call: five pushes, the pointer updates, then the jump. -/
theorem instructions_call (addr : String → UInt16) (f ret : String) (n : Nat) :
    instructions addr (Code.call f n ret) =
      instructions addr ([Code.addr ret, Code.assign Dest.D .a] ++ Code.pushD) ++
      instructions addr ([Code.addr "LCL", Code.assign Dest.D .m] ++ Code.pushD) ++
      instructions addr ([Code.addr "ARG", Code.assign Dest.D .m] ++ Code.pushD) ++
      instructions addr ([Code.addr "THIS", Code.assign Dest.D .m] ++ Code.pushD) ++
      instructions addr ([Code.addr "THAT", Code.assign Dest.D .m] ++ Code.pushD) ++
      instructions addr [Code.addr "SP", Code.assign Dest.D .m, Code.addr "LCL",
        Code.assign Dest.M .d, Code.literal (n + 5), Code.assign Dest.D .subDA, Code.addr "ARG",
        Code.assign Dest.M .d, Code.addr f] ++
      [.compute Dest.none .zero Jump.JMP] := by
  simp only [Code.call, Code.saved, List.flatMap_cons, List.flatMap_nil, List.append_nil,
    instructions_append, List.append_assoc]
  rfl

/-- The words of a return: save the return address, place the result, restore the four pointers,
reset `SP`, then jump. -/
theorem instructions_ret (addr : String → UInt16) :
    instructions addr Code.ret =
      instructions addr [Code.addr "LCL", Code.assign Dest.D .m, Code.literal 5,
        Code.assign Dest.A .subDA, Code.assign Dest.D .m, Code.addr "R14", Code.assign Dest.M .d] ++
      instructions addr Code.popD ++
      instructions addr [Code.addr "ARG", Code.assign Dest.A .m, Code.assign Dest.M .d,
        Code.assign Dest.D .incA, Code.addr "R15", Code.assign Dest.M .d, Code.addr "LCL",
        Code.assign Dest.D .m, Code.addr "SP", Code.assign Dest.M .d] ++
      instructions addr (Code.popD ++ [Code.addr "THAT", Code.assign Dest.M .d]) ++
      instructions addr (Code.popD ++ [Code.addr "THIS", Code.assign Dest.M .d]) ++
      instructions addr (Code.popD ++ [Code.addr "ARG", Code.assign Dest.M .d]) ++
      instructions addr (Code.popD ++ [Code.addr "LCL", Code.assign Dest.M .d]) ++
      instructions addr [Code.addr "R15", Code.assign Dest.D .m, Code.addr "SP",
        Code.assign Dest.M .d, Code.addr "R14", Code.assign Dest.A .m] ++
      [.compute Dest.none .zero Jump.JMP] := by
  simp only [Code.ret, Code.saved, List.reverse_cons, List.reverse_nil, List.nil_append,
    List.cons_append, List.flatMap_cons, List.flatMap_nil, List.append_nil,
    instructions_append, List.append_assoc]
  rfl

section Blocks

variable {addr : String → UInt16} (res : Resolution addr) (m : Machine)
include res

theorem Resolution.sp : addr "SP" = 0 := res.keeps "SP" 0 (by decide)
theorem Resolution.lcl : addr "LCL" = 1 := res.keeps "LCL" 1 (by decide)
theorem Resolution.arg : addr "ARG" = 2 := res.keeps "ARG" 2 (by decide)
theorem Resolution.this : addr "THIS" = 3 := res.keeps "THIS" 3 (by decide)
theorem Resolution.that : addr "THAT" = 4 := res.keeps "THAT" 4 (by decide)
theorem Resolution.r14 : addr "R14" = 14 := res.keeps "R14" 14 (by decide)
theorem Resolution.r15 : addr "R15" = 15 := res.keeps "R15" 15 (by decide)

/-- Pushing D: the word at `SP` takes D, then `SP` goes up. -/
theorem run_pushD :
    (instructions addr Code.pushD).foldl runInst m =
      (m.pushed (m.get 0) m.d).withRegs (m.get 0) m.d (m.pc + 4) := by
  simp [instructions, Code.pushD, Code.addr, Code.assign, Instr.resolve, runInst_load,
    runInst_assign, Dest.M, Dest.A, Comp.eval, res.sp, Inst.toWord_load, UInt16.add_assoc,
    pushed]

/-- Pushing a RAM word: D takes the word at the symbol's address, then is pushed. -/
theorem run_pushWord (name : String) :
    (instructions addr ([Code.addr name, Code.assign Dest.D .m] ++ Code.pushD)).foldl runInst m =
      (m.pushed (m.get 0) (m.get (addr name))).withRegs (m.get 0) (m.get (addr name))
        (m.pc + 6) := by
  rw [instructions_append, List.foldl_append]
  have fetched : (instructions addr [Code.addr name, Code.assign Dest.D .m]).foldl runInst m =
      m.withRegs (addr name) (m.get (addr name)) (m.pc + 2) := by
    simp [instructions, Code.addr, Code.assign, Instr.resolve, runInst_load, runInst_assign,
      Dest.D, Comp.eval, Inst.toWord_load, res.fits, UInt16.add_assoc]
  rw [fetched, run_pushD res]
  simp [UInt16.add_assoc]

/-- Pushing the address of a symbol. -/
theorem run_pushAddress (name : String) :
    (instructions addr ([Code.addr name, Code.assign Dest.D .a] ++ Code.pushD)).foldl runInst m =
      (m.pushed (m.get 0) (addr name)).withRegs (m.get 0) (addr name) (m.pc + 6) := by
  rw [instructions_append, List.foldl_append]
  have loaded : (instructions addr [Code.addr name, Code.assign Dest.D .a]).foldl runInst m =
      m.withRegs (addr name) (addr name) (m.pc + 2) := by
    simp [instructions, Code.addr, Code.assign, Instr.resolve, runInst_load, runInst_assign,
      Dest.D, Comp.eval, Inst.toWord_load, res.fits, UInt16.add_assoc]
  rw [loaded, run_pushD res]
  simp [UInt16.add_assoc]

/-- The end of a call before its jump: `LCL` takes `SP`, `ARG` takes `SP - n - 5`, and A the
address of the function. -/
theorem run_enter (name : String) (n : Nat) (small : n + 5 < 32768) :
    (instructions addr [Code.addr "SP", Code.assign Dest.D .m, Code.addr "LCL",
        Code.assign Dest.M .d, Code.literal (n + 5), Code.assign Dest.D .subDA, Code.addr "ARG",
        Code.assign Dest.M .d, Code.addr name]).foldl runInst m =
      ((m.set 1 (m.get 0)).set 2 (m.get 0 - (n + 5).toUInt16)).withRegs (addr name)
        (m.get 0 - (n + 5).toUInt16) (m.pc + 9) := by
  have literal : (Inst.load (UInt16.ofNat n + 5)).toWord = UInt16.ofNat n + 5 := by
    apply Inst.toWord_load
    simp only [UInt16.toNat_add, UInt16.toNat_ofNat', UInt16.reduceToNat]
    omega
  simp [instructions, Code.addr, Code.assign, Code.literal, Instr.resolve, runInst_load,
    runInst_assign, Dest.D, Dest.M, Comp.eval, Inst.toWord_load, res.fits, res.sp, res.lcl,
    res.arg, literal, UInt16.add_assoc]


/-- The frame a call saves: the return address, then the words of `LCL`, `ARG`, `THIS` and
`THAT`. -/
theorem run_pushFrame (ret : String) (sp : UInt16) (top : m.get 0 = sp) (low : 16 ≤ sp.toNat)
    (high : sp.toNat + 5 ≤ 32767) :
    (instructions addr ([Code.addr ret, Code.assign Dest.D .a] ++ Code.pushD) ++
      instructions addr ([Code.addr "LCL", Code.assign Dest.D .m] ++ Code.pushD) ++
      instructions addr ([Code.addr "ARG", Code.assign Dest.D .m] ++ Code.pushD) ++
      instructions addr ([Code.addr "THIS", Code.assign Dest.D .m] ++ Code.pushD) ++
      instructions addr ([Code.addr "THAT", Code.assign Dest.D .m] ++ Code.pushD)).foldl runInst m =
    (((((m.pushed sp (addr ret)).pushed (sp + 1) (m.get 1)).pushed (sp + 2) (m.get 2)).pushed
      (sp + 3) (m.get 3)).pushed (sp + 4) (m.get 4)).withRegs (sp + 4) (m.get 4) (m.pc + 30) := by
  simp only [List.foldl_append]
  rw [run_pushAddress res, run_pushWord res, run_pushWord res, run_pushWord res, run_pushWord res]
  -- each push reads `SP` as the one before left it, and the pointers below the words pushed;
  -- slots are compared as numbers, and the closing `fail` keeps a failed `omega` a failure
  simp (disch := first
      | omega
      | (simp only [UInt16.toNat_add, UInt16.toNat_sub, UInt16.reduceToNat, ne_eq]; all_goals omega)
      | fail) only [get_withRegs, pushed_withRegs, withRegs_withRegs,
    res.lcl, res.arg, res.this, res.that, get_pushed_sp, get_pushed_register, pc_withRegs, top,
    UInt16.add_assoc, UInt16.reduceAdd]

/-- Popping into D: `SP` goes down, then D takes the word it points at. -/
theorem run_popD (t : UInt16) (top : m.get 0 = t) (apart : (t - 1).toNat % 32768 ≠ 0) :
    (instructions addr Code.popD).foldl runInst m =
      (m.set 0 (t - 1)).withRegs (t - 1) (m.get (t - 1)) (m.pc + 3) := by
  have below : (m.set 0 (t - 1)).get (t - 1) = m.get (t - 1) :=
    get_set_of_ne _ _ _ _ (by simpa using apart.symm)
  simp [instructions, Code.popD, Code.addr, Code.assign, Instr.resolve, runInst_load,
    runInst_assign, Dest.AM, Dest.D, Comp.eval, res.sp, Inst.toWord_load, top, below,
    UInt16.add_assoc]

/-- The start of a return: `R14` takes the return address, five words below `LCL`. -/
theorem run_saveReturn (l : UInt16) (frame : m.get 1 = l) :
    (instructions addr [Code.addr "LCL", Code.assign Dest.D .m, Code.literal 5,
        Code.assign Dest.A .subDA, Code.assign Dest.D .m, Code.addr "R14",
        Code.assign Dest.M .d]).foldl runInst m =
      (m.set 14 (m.get (l - 5))).withRegs 14 (m.get (l - 5)) (m.pc + 7) := by
  simp [instructions, Code.addr, Code.assign, Code.literal, Instr.resolve, runInst_load,
    runInst_assign, Dest.A, Dest.D, Dest.M, Comp.eval, res.lcl, res.r14, Inst.toWord_load,
    frame, UInt16.add_assoc]

/-- The result goes where the first argument was, `R15` keeps the word above it, and `SP` goes
back to `LCL`. -/
theorem run_placeResult (a l : UInt16) (args : m.get 2 = a) (frame : m.get 1 = l)
    (apart : a.toNat % 32768 ≠ 1) :
    (instructions addr [Code.addr "ARG", Code.assign Dest.A .m, Code.assign Dest.M .d,
        Code.assign Dest.D .incA, Code.addr "R15", Code.assign Dest.M .d, Code.addr "LCL",
        Code.assign Dest.D .m, Code.addr "SP", Code.assign Dest.M .d]).foldl runInst m =
      (((m.set a m.d).set 15 (a + 1)).set 0 l).withRegs 0 l (m.pc + 10) := by
  have kept : ((m.set a m.d).set 15 (a + 1)).get 1 = l := by
    rw [get_set_of_ne _ _ _ _ (by decide), get_set_of_ne _ _ _ _ (by simpa using apart), frame]
  simp [instructions, Code.addr, Code.assign, Instr.resolve, runInst_load, runInst_assign,
    Dest.A, Dest.D, Dest.M, Comp.eval, res.arg, res.r15, res.lcl, res.sp, Inst.toWord_load,
    args, kept, UInt16.add_assoc]

/-- Restoring a pointer: pop into D and store it at the pointer's register. -/
theorem run_restore (name : String) (r t : UInt16) (register : addr name = r) (top : m.get 0 = t)
    (apart : (t - 1).toNat % 32768 ≠ 0) :
    (instructions addr (Code.popD ++ [Code.addr name, Code.assign Dest.M .d])).foldl runInst m =
      ((m.set 0 (t - 1)).set r (m.get (t - 1))).withRegs r (m.get (t - 1)) (m.pc + 5) := by
  rw [instructions_append, List.foldl_append, run_popD res m t top apart]
  have small : (addr name).toNat < 32768 := res.fits name
  rw [register] at small
  simp [instructions, Code.addr, Code.assign, Instr.resolve, runInst_load, runInst_assign,
    Dest.M, Comp.eval, register, Inst.toWord_load, small, UInt16.add_assoc]

/-- The end of a return before its jump: `SP` takes the word kept in `R15`, and A the return
address kept in `R14`. -/
theorem run_leave :
    (instructions addr [Code.addr "R15", Code.assign Dest.D .m, Code.addr "SP",
        Code.assign Dest.M .d, Code.addr "R14", Code.assign Dest.A .m]).foldl runInst m =
      (m.set 0 (m.get 15)).withRegs (m.get 14) (m.get 15) (m.pc + 6) := by
  have kept : (m.set 0 (m.get 15)).get 14 = m.get 14 := get_set_of_ne _ _ _ _ (by decide)
  simp [instructions, Code.addr, Code.assign, Instr.resolve, runInst_load, runInst_assign,
    Dest.A, Dest.D, Dest.M, Comp.eval, res.r14, res.r15, res.sp, Inst.toWord_load, kept,
    UInt16.add_assoc]

end Blocks

/-- What a call leaves, from the machine `m` at the call with `SP = sp` to `m'`: the return
address and the caller's `LCL`, `ARG`, `THIS`, `THAT` in the five words at `sp`, `SP` and `LCL`
just above them, `ARG` at the first of the `n` arguments, control at the function, and every
other word as it was. -/
structure Called (addr : String → UInt16) (f ret : String) (n : Nat) (sp : UInt16)
    (m m' : Machine) : Prop where
  enters : m'.pc = addr f
  savesReturn : m'.get sp = addr ret
  savesLcl : m'.get (sp + 1) = m.get 1
  savesArg : m'.get (sp + 2) = m.get 2
  savesThis : m'.get (sp + 3) = m.get 3
  savesThat : m'.get (sp + 4) = m.get 4
  setsSp : m'.get 0 = sp + 5
  setsLcl : m'.get 1 = sp + 5
  setsArg : m'.get 2 = sp - n.toUInt16
  keeps : ∀ x : UInt16, 2 < x.toNat % 32768 →
    (x.toNat % 32768 < sp.toNat ∨ sp.toNat + 5 ≤ x.toNat % 32768) → m'.get x = m.get x

/-- What a return leaves, from the machine `m` at the return with `LCL = l`, `ARG = a` and
`SP = s` to `m'`: control at the word saved five below `LCL`, the top of the stack where the
first argument was and `SP` just above it, the four pointers as saved in the frame, and every
word other than the pointers, `R14`, `R15` and the result as it was. -/
structure Returned (l a s : UInt16) (m m' : Machine) : Prop where
  jumps : m'.pc = m.get (l - 5)
  placesResult : m'.get a = m.get (s - 1)
  setsSp : m'.get 0 = a + 1
  restoresLcl : m'.get 1 = m.get (l - 4)
  restoresArg : m'.get 2 = m.get (l - 3)
  restoresThis : m'.get 3 = m.get (l - 2)
  restoresThat : m'.get 4 = m.get (l - 1)
  keeps : ∀ x : UInt16, 4 < x.toNat % 32768 → x.toNat % 32768 ≠ 14 →
    x.toNat % 32768 ≠ 15 → x.toNat % 32768 ≠ a.toNat → m'.get x = m.get x

/-- What the caller sees once the callee has returned: control at the return label, the caller's
four pointers back, and the callee's result where the first argument was with `SP` just above
it. -/
structure Resumed (addr : String → UInt16) (ret : String) (n : Nat) (sp : UInt16)
    (caller callee m' : Machine) : Prop where
  resumes : m'.pc = addr ret
  placesResult : m'.get (sp - n.toUInt16) = callee.get (callee.get 0 - 1)
  setsSp : m'.get 0 = sp - n.toUInt16 + 1
  restoresLcl : m'.get 1 = caller.get 1
  restoresArg : m'.get 2 = caller.get 2
  restoresThis : m'.get 3 = caller.get 3
  restoresThat : m'.get 4 = caller.get 4

section Calls

variable {addr : String → UInt16} (res : Resolution addr) (m : Machine)
include res

/-- A call, run from its first word with `SP = sp` above the registers and room for its frame,
leaves what `Called` says. -/
theorem call_frame (f ret : String) (n : Nat) (sp : UInt16)
    (placed : CodeAt m.rom m.pc (instructions addr (Code.call f n ret)))
    (top : m.get 0 = sp) (low : 16 + n ≤ sp.toNat) (high : sp.toNat + 5 ≤ 32767) :
    Called addr f ret n sp m (steps (instructions addr (Code.call f n ret)).length m) := by
  rw [instructions_call addr] at placed ⊢
  rw [List.length_append, List.length_singleton, steps_straight_then _ _ m placed (by
    simp [instructions, Code.pushD, Code.addr, Code.assign, Code.literal, Instr.resolve,
      Inst.FallsThrough])]
  rw [List.foldl_append, run_pushFrame res m ret sp top (by omega) high,
    run_enter res _ f n (by omega)]
  have arg : sp + 5 - (n + 5).toUInt16 = sp - n.toUInt16 := by
    apply UInt16.toNat_inj.mp
    simp only [UInt16.toNat_sub, UInt16.toNat_add, Nat.toUInt16_eq, UInt16.toNat_ofNat',
      UInt16.reduceToNat]
    omega
  refine ⟨?_, ?_, ?_, ?_, ?_, ?_, ?_, ?_, ?_, fun x above outside => ?_⟩
  all_goals simp (disch := first
      | omega
      | (simp only [UInt16.toNat_add, UInt16.toNat_sub, UInt16.reduceToNat, ne_eq]; all_goals omega)
      | fail) only [pc_runInst_goto,
    get_runInst_goto, a_withRegs, get_withRegs, set_withRegs, arg, get_set_self, get_set_of_ne,
    get_pushed_self, get_pushed_other, get_pushed_sp, UInt16.add_assoc, UInt16.reduceAdd]

/-- A return, run from its first word with its frame above the first argument and the stack above
its frame, leaves what `Returned` says. -/
theorem ret_frame (l a s : UInt16)
    (placed : CodeAt m.rom m.pc (instructions addr Code.ret))
    (frame : m.get 1 = l) (args : m.get 2 = a) (top : m.get 0 = s)
    (low : 16 ≤ a.toNat) (below : a.toNat + 5 ≤ l.toNat) (above : l.toNat < s.toNat)
    (high : s.toNat ≤ 32767) :
    Returned l a s m (steps (instructions addr Code.ret).length m) := by
  rw [instructions_ret addr] at placed ⊢
  rw [List.length_append, List.length_singleton, steps_straight_then _ _ m placed (by
    simp [instructions, Code.popD, Code.addr, Code.assign, Code.literal, Instr.resolve,
      Inst.FallsThrough])]
  simp only [List.foldl_append]
  rw [run_saveReturn res m l frame]
  -- until the four pointers are restored, `SP`, `ARG` and `LCL` are read back past writes to
  -- other registers only
  rw [run_popD res _ s (by simp (disch := decide) only [get_withRegs, get_set_of_ne, top])
    (by simp only [UInt16.toNat_sub, UInt16.reduceToNat]; omega)]
  rw [run_placeResult res _ a l
    (by simp (disch := decide) only [get_withRegs, get_set_of_ne, args])
    (by simp (disch := decide) only [get_withRegs, get_set_of_ne, frame]) (by omega)]
  have down : ∀ k : UInt16, k.toNat < 5 → l - k - 1 = l - (k + 1) := by
    intro k small
    apply UInt16.toNat_inj.mp
    simp only [UInt16.toNat_sub, UInt16.toNat_add, UInt16.reduceToNat]
    omega
  rw [run_restore res _ "THAT" 4 l res.that (by simp only [get_withRegs, get_set_self])
    (by simp only [UInt16.toNat_sub, UInt16.reduceToNat]; omega)]
  rw [run_restore res _ "THIS" 3 (l - 1) res.this
    (by simp (disch := decide) only [get_withRegs, get_set_self, get_set_of_ne])
    (by simp only [UInt16.toNat_sub, UInt16.reduceToNat]; omega)]
  rw [show l - 1 - 1 = l - 2 from down 1 (by decide)]
  rw [run_restore res _ "ARG" 2 (l - 2) res.arg
    (by simp (disch := decide) only [get_withRegs, get_set_self, get_set_of_ne])
    (by simp only [UInt16.toNat_sub, UInt16.reduceToNat]; omega)]
  rw [show l - 2 - 1 = l - 3 from down 2 (by decide)]
  rw [run_restore res _ "LCL" 1 (l - 3) res.lcl
    (by simp (disch := decide) only [get_withRegs, get_set_self, get_set_of_ne])
    (by simp only [UInt16.toNat_sub, UInt16.reduceToNat]; omega)]
  rw [show l - 3 - 1 = l - 4 from down 3 (by decide), run_leave res _]
  refine ⟨?_, ?_, ?_, ?_, ?_, ?_, ?_, fun x notPointer notR14 notR15 notArg => ?_⟩
  all_goals simp (disch := first
      | omega
      | (simp only [UInt16.toNat_add, UInt16.toNat_sub, UInt16.reduceToNat, ne_eq]; all_goals omega)
      | fail) only [pc_runInst_goto,
    get_runInst_goto, a_withRegs, get_withRegs, set_withRegs, d_withRegs, get_set_self,
    get_set_of_ne]

/-- A callee that leaves `LCL`, `ARG` and the frame as the call set them, and returns with its
result on top, resumes the caller at the return label with the caller's pointers back. -/
theorem call_then_return (f ret : String) (n : Nat) (sp : UInt16) (callee : Machine)
    (placed : CodeAt m.rom m.pc (instructions addr (Code.call f n ret)))
    (top : m.get 0 = sp) (low : 16 + n ≤ sp.toNat) (high : sp.toNat + 5 ≤ 32767)
    (returning : CodeAt callee.rom callee.pc (instructions addr Code.ret))
    (keepsLcl : callee.get 1 = (steps (instructions addr (Code.call f n ret)).length m).get 1)
    (keepsArg : callee.get 2 = (steps (instructions addr (Code.call f n ret)).length m).get 2)
    (keepsFrame : ∀ i : UInt16, i.toNat < 5 →
      callee.get (sp + i) = (steps (instructions addr (Code.call f n ret)).length m).get (sp + i))
    (resultOnTop : sp.toNat + 5 < (callee.get 0).toNat) (room : (callee.get 0).toNat ≤ 32767) :
    Resumed addr ret n sp m callee (steps (instructions addr Code.ret).length callee) := by
  have called := call_frame res m f ret n sp placed top low high
  have argAt : (sp - n.toUInt16).toNat = sp.toNat - n := by
    simp only [UInt16.toNat_sub, Nat.toUInt16_eq, UInt16.toNat_ofNat']
    omega
  have lclAt : (sp + 5).toNat = sp.toNat + 5 := by
    rw [UInt16.toNat_add]
    simp only [UInt16.reduceToNat]
    omega
  have returned := ret_frame res callee (sp + 5) (sp - n.toUInt16) (callee.get 0) returning
    (keepsLcl.trans called.setsLcl) (keepsArg.trans called.setsArg) rfl (by omega) (by omega)
    (by omega) room
  -- the frame sits five words below `LCL = sp + 5`
  have below : ∀ k : UInt16, k.toNat ≤ 5 → sp + 5 - (5 - k) = sp + k := by
    intro k small
    apply UInt16.toNat_inj.mp
    simp only [UInt16.toNat_sub, UInt16.toNat_add, UInt16.reduceToNat]
    omega
  refine ⟨?_, returned.placesResult, returned.setsSp, ?_, ?_, ?_, ?_⟩
  · rw [returned.jumps, show sp + 5 - 5 = sp + 0 from below 0 (by decide),
      keepsFrame 0 (by decide), UInt16.add_zero, called.savesReturn]
  · rw [returned.restoresLcl, show sp + 5 - 4 = sp + 1 from below 1 (by decide),
      keepsFrame 1 (by decide), called.savesLcl]
  · rw [returned.restoresArg, show sp + 5 - 3 = sp + 2 from below 2 (by decide),
      keepsFrame 2 (by decide), called.savesArg]
  · rw [returned.restoresThis, show sp + 5 - 2 = sp + 3 from below 3 (by decide),
      keepsFrame 3 (by decide), called.savesThis]
  · rw [returned.restoresThat, show sp + 5 - 1 = sp + 4 from below 4 (by decide),
      keepsFrame 4 (by decide), called.savesThat]

end Calls

/-- The calling convention of the generated code. A call with `SP = sp` saves the return address
and the caller's four pointers in the five words at `sp`, sets `SP` and `LCL` just above them and
`ARG` at the first argument, and enters the function. A return from a frame puts the top of the
stack where the first argument was, restores the four pointers from the frame and jumps to the
word saved five below `LCL`, with `R14` and `R15` as scratch. So a callee that leaves `LCL`,
`ARG` and the frame alone and returns with its result on top resumes the caller at the return
label with the caller's pointers back. -/
theorem calling_convention {addr : String → UInt16} (res : Resolution addr) :
    (∀ (m : Machine) (f ret : String) (n : Nat) (sp : UInt16),
      CodeAt m.rom m.pc (instructions addr (Code.call f n ret)) → m.get 0 = sp →
      16 + n ≤ sp.toNat → sp.toNat + 5 ≤ 32767 →
      Called addr f ret n sp m (steps (instructions addr (Code.call f n ret)).length m)) ∧
    (∀ (m : Machine) (l a s : UInt16),
      CodeAt m.rom m.pc (instructions addr Code.ret) →
      m.get 1 = l → m.get 2 = a → m.get 0 = s →
      16 ≤ a.toNat → a.toNat + 5 ≤ l.toNat → l.toNat < s.toNat → s.toNat ≤ 32767 →
      Returned l a s m (steps (instructions addr Code.ret).length m)) ∧
    (∀ (m callee : Machine) (f ret : String) (n : Nat) (sp : UInt16),
      CodeAt m.rom m.pc (instructions addr (Code.call f n ret)) → m.get 0 = sp →
      16 + n ≤ sp.toNat → sp.toNat + 5 ≤ 32767 →
      CodeAt callee.rom callee.pc (instructions addr Code.ret) →
      callee.get 1 = (steps (instructions addr (Code.call f n ret)).length m).get 1 →
      callee.get 2 = (steps (instructions addr (Code.call f n ret)).length m).get 2 →
      (∀ i : UInt16, i.toNat < 5 → callee.get (sp + i) =
        (steps (instructions addr (Code.call f n ret)).length m).get (sp + i)) →
      sp.toNat + 5 < (callee.get 0).toNat → (callee.get 0).toNat ≤ 32767 →
      Resumed addr ret n sp m callee (steps (instructions addr Code.ret).length callee)) :=
  ⟨fun m f ret n sp => call_frame res m f ret n sp,
   fun m l a s => ret_frame res m l a s,
   fun m callee f ret n sp => call_then_return res m f ret n sp callee⟩

/-! ### A sample run -/

/-- A resolution for a program whose function `main.f` starts at word 100 and whose other labels
sit at word 40, the word after a call placed at 0. -/
def sampleAddr (name : String) : UInt16 :=
  match List.lookup name predefined with
  | some a => a
  | none => if name = "main.f" then 100 else 40

theorem sampleAddr_resolution : Resolution sampleAddr := by
  refine Resolution.of_lookup _ (fun name a found => by simp [sampleAddr, found]) ?_
  intro name missing
  simp only [sampleAddr, missing]
  split <;> decide

/-- The call `main.f` with two arguments, then a return, from ROM word 0. -/
def sampleRom : Array UInt16 :=
  ((instructions sampleAddr (Code.call "main.f" 2 "main.f$ret.0") ++
    instructions sampleAddr Code.ret).map Inst.toWord).toArray

/-- A caller at the call with `SP = 256`. -/
def sampleCaller : Machine :=
  ({ rom := sampleRom } : Machine).set 0 256

/-- A machine at the return with `LCL = 300`, `ARG = 280` and `SP = 310`. -/
def sampleReturn : Machine :=
  ((({ rom := sampleRom, pc := 40 } : Machine).set 1 300).set 2 280).set 0 310

/-- The callee of the sample caller, at the return with one more word, its result, on the stack. -/
def sampleCallee : Machine :=
  (((steps (instructions sampleAddr (Code.call "main.f" 2 "main.f$ret.0")).length
    sampleCaller).set 261 7).set 0 262).withRegs 0 0 40

theorem calling_convention_sample :
    Resolution sampleAddr ∧
    Called sampleAddr "main.f" "main.f$ret.0" 2 256 sampleCaller
      (steps (instructions sampleAddr (Code.call "main.f" 2 "main.f$ret.0")).length
        sampleCaller) ∧
    Returned 300 280 310 sampleReturn
      (steps (instructions sampleAddr Code.ret).length sampleReturn) ∧
    Resumed sampleAddr "main.f$ret.0" 2 256 sampleCaller sampleCallee
      (steps (instructions sampleAddr Code.ret).length sampleCallee) := by
  have callWords : (instructions sampleAddr (Code.call "main.f" 2 "main.f$ret.0")).length = 40 := by
    decide
  have callPlaced : CodeAt sampleRom 0
      (instructions sampleAddr (Code.call "main.f" 2 "main.f$ret.0")) := by
    have placed := codeAt_words [] (instructions sampleAddr (Code.call "main.f" 2 "main.f$ret.0"))
      (instructions sampleAddr Code.ret) (by decide)
    rw [List.nil_append] at placed
    exact placed
  have retPlaced : CodeAt sampleRom 40 (instructions sampleAddr Code.ret) := by
    have placed := codeAt_words (instructions sampleAddr (Code.call "main.f" 2 "main.f$ret.0"))
      (instructions sampleAddr Code.ret) [] (by decide)
    rw [callWords, List.append_nil] at placed
    exact placed
  have parts := calling_convention sampleAddr_resolution
  refine ⟨sampleAddr_resolution, ?_, ?_, ?_⟩
  · exact parts.1 sampleCaller _ _ 2 256 callPlaced (get_set_self _ _ _) (by decide) (by decide)
  · have lcl : sampleReturn.get 1 = 300 := by
      rw [sampleReturn, get_set_of_ne _ 0 1 _ (by decide), get_set_of_ne _ 2 1 _ (by decide),
        get_set_self]
    have arg : sampleReturn.get 2 = 280 := by
      rw [sampleReturn, get_set_of_ne _ 0 2 _ (by decide), get_set_self]
    exact parts.2.1 sampleReturn 300 280 310 retPlaced lcl arg (get_set_self _ _ _) (by decide)
      (by decide) (by decide) (by decide)
  · -- the callee's writes, at 261 and at `SP`, miss the pointers and the frame
    have kept : ∀ x : UInt16, x.toNat < 261 → 0 < x.toNat →
        sampleCallee.get x = (steps (instructions sampleAddr
          (Code.call "main.f" 2 "main.f$ret.0")).length sampleCaller).get x := by
      intro x below above
      rw [sampleCallee, get_withRegs, get_set_of_ne _ 0 x _ (by simp; omega),
        get_set_of_ne _ 261 x _ (by simp; omega)]
    have top : sampleCallee.get 0 = 262 := by
      rw [sampleCallee, get_withRegs, get_set_self]
    have returning :
        CodeAt sampleCallee.rom sampleCallee.pc (instructions sampleAddr Code.ret) := by
      rw [sampleCallee, rom_withRegs, pc_withRegs, rom_set, rom_set, rom_steps]
      exact retPlaced
    exact parts.2.2 sampleCaller sampleCallee _ _ 2 256 callPlaced (get_set_self _ _ _)
      (by decide) (by decide) returning (kept 1 (by decide) (by decide))
      (kept 2 (by decide) (by decide))
      (fun i small => kept _ (by simp [UInt16.toNat_add]; omega)
        (by simp [UInt16.toNat_add]; omega))
      (by rw [top]; decide) (by rw [top]; decide)

end Hack.Vm
