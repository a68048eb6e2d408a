import FplCompiler.Proofs.OrderlyPrograms
import FplCompiler.Proofs.Simulation
import FplCompiler.Proofs.SoundNodes

/-!
A constant is the value that its code computes. The code of an expression whose value is known as an integer writes new
temporaries, one after the other, and neither jumps nor touches the memory, so that it leaves that value behind from
whatever state it is run; and it still does when the function that returns the value has been simplified.
-/

namespace FplCompiler.Codegen

open Ir

open Typed (Expr)

variable {value : Int32} {code : Gen Reg} {state : State} {op : AluOp} {μ : Type} {instr : Instr}

structure Lengthens (state later : State) : Prop where
  code : state.function.code.toList <+: later.function.code.toList
  registers : state.function.registers.size ≤ later.function.registers.size
  plain : ∀ instr ∈ later.function.code, instr ∈ state.function.code ∨ instr.label? = none

theorem Lengthens.trans {first second third : State} (lower : Lengthens first second) (upper : Lengthens second third) :
    Lengthens first third where
  code := lower.code.trans upper.code
  registers := lower.registers.trans upper.registers
  plain instr member := (upper.plain instr member).elim (lower.plain instr) Or.inr

theorem lengthens_add (state : State) (instr : Instr) (plain : instr.label? = none) :
    Lengthens state (state.add instr) where
  code := ⟨[instr], by simp [State.add]⟩
  registers := Nat.le_refl _
  plain other member := by
    rcases Array.mem_push.mp member with old | rfl
    · exact Or.inl old
    · exact Or.inr plain

theorem lengthens_toTemp (state : State) (plain : instr.label? = none) :
    Lengthens state (state.withTemp.add instr) :=
  have made : Lengthens state state.withTemp :=
    ⟨List.prefix_rfl, (Nat.le_succ _).trans_eq (Array.size_push _).symm, fun _ => Or.inl⟩
  made.trans (lengthens_add _ instr plain)

/-- Where a run has come to: it has left a value in a register that may be read, and nothing else has changed that was
there before. -/
structure Leaves {μ : Type} (bound place register : Nat) (value : Int32) (written laterWritten : Reg → Prop)
    (machine later : MachineState μ) : Prop where
  place : later.place = place
  holds : later.read register = value
  ready : register < Reg.machineCount ∨ laterWritten register
  written : ∀ other, written other → laterWritten other
  kept : ∀ other : Nat, other < bound → later.read other = machine.read other
  memory : later.memory = machine.memory
  trace : later.trace = machine.trace

theorem Leaves.trans {bound further place laterPlace register laterRegister : Nat} {laterValue : Int32}
    {written middleWritten laterWritten : Reg → Prop} {machine middle later : MachineState μ}
    (lower : Leaves bound place register value written middleWritten machine middle)
    (upper : Leaves further laterPlace laterRegister laterValue middleWritten laterWritten middle later)
    (above : bound ≤ further) :
    Leaves bound laterPlace laterRegister laterValue written laterWritten machine later where
  place := upper.place
  holds := upper.holds
  ready := upper.ready
  written other := upper.written other ∘ lower.written other
  kept other below := (upper.kept other (below.trans_le above)).trans (lower.kept other below)
  memory := upper.memory.trans lower.memory
  trace := upper.trace.trans lower.trace

def RunsTo (state later : State) (register : Nat) (value : Int32) : Prop :=
  ∀ ⦃μ : Type⦄ ⦃around : Surroundings μ⦄ ⦃final : Array Instr⦄ ⦃first : MachineState μ⦄ ⦃steps : Nat⦄
    ⦃written : Reg → Prop⦄ ⦃machine : MachineState μ⦄, later.function.code.toList <+: final.toList →
    CarefulRun around final first steps written machine → machine.place = state.function.code.size →
    ∃ laterSteps laterWritten end_, CarefulRun around final first laterSteps laterWritten end_ ∧
      Leaves state.function.registers.size later.function.code.size register value written laterWritten machine end_

section Runs

variable {around : Surroundings μ} {final : Array Instr} {first machine : MachineState μ} {steps : Nat}
  {written : Reg → Prop}

theorem leaves_add {state : State} (begins : (state.add instr).function.code.toList <+: final.toList)
    (careful : CarefulRun around final first steps written machine) (here : machine.place = state.function.code.size)
    (reads : ∀ register : Nat, register ∈ instr.uses → register < Reg.machineCount ∨ written register) {dest : Nat}
    (writes : instr.def? = some dest) (nonzero : dest ≠ Reg.zero) {bound : Nat} (above : bound ≤ dest) {value : Int32}
    (done : effect around (labelPlace? final) machine instr = some (.plain machine (.set dest value))) :
    ∃ laterSteps laterWritten later, CarefulRun around final first laterSteps laterWritten later ∧
      Leaves bound (state.add instr).function.code.size dest value written laterWritten machine later := by
  have found : final[machine.place]? = some instr := by
    rw [here, ← Array.getElem?_toList]
    exact getElem?_of_begins begins (by simp [State.add])
  have taken : step around final machine = some (machine.assign dest value) := by
    rw [step_eq found, done]
    rfl
  refine ⟨_, _, _, .step careful found reads taken, ?_⟩
  constructor
  case place => exact (congrArg (· + 1) here).trans (Array.size_push _).symm
  case holds => rw [machine.read_assign nonzero, if_pos rfl]
  case ready => exact Or.inr (Or.inr writes)
  case written => exact fun _ => Or.inl
  case kept =>
    intro other below
    rw [machine.read_assign nonzero, if_neg (Nat.ne_of_lt (below.trans_le above))]
  case memory | trace => rfl

end Runs

theorem size_ne_zero (fits : Reg.machineCount ≤ state.function.registers.size) :
    state.function.registers.size ≠ Reg.zero :=
  (Nat.lt_of_lt_of_le (by decide) fits).ne'

theorem runsTo_constant (fits : Reg.machineCount ≤ state.function.registers.size) (value : Int32) :
    RunsTo state (state.withTemp.add (.constant state.function.registers.size value)) state.function.registers.size
      value := by
  intro μ around final first steps written machine begins careful here
  exact leaves_add begins careful here (by simp [Instr.uses]) rfl (size_ne_zero fits) (Nat.le_refl _) rfl

/-- An operation that has a value on the values of its operands. The code of the right operand leaves the register of
the left one alone. -/
theorem RunsTo.alu {middle last : State} {left right : Nat} {leftValue rightValue : Int32}
    (leftRuns : RunsTo state middle left leftValue) (rightRuns : RunsTo middle last right rightValue)
    (isValue : left = Reg.zero ∨ left < middle.function.registers.size)
    (lower : Lengthens state middle) (upper : Lengthens middle last)
    (fits : Reg.machineCount ≤ state.function.registers.size) (folds : op.evaluate? leftValue rightValue = some value) :
    RunsTo state (last.withTemp.add (.alu op last.function.registers.size left right)) last.function.registers.size
      value := by
  intro μ around final first steps written machine begins careful here
  have lastBegins := (lengthens_toTemp last rfl).code.trans begins
  obtain ⟨_, _, between, leftRun, leftLeaves⟩ := leftRuns (upper.code.trans lastBegins) careful here
  obtain ⟨_, rightWritten, after, rightRun, rightLeaves⟩ := rightRuns lastBegins leftRun leftLeaves.place
  have leftHolds : after.read left = leftValue := by
    rcases isValue with rfl | below
    · rw [← leftLeaves.holds, MachineState.read_zero, MachineState.read_zero]
    · rw [rightLeaves.kept left below, leftLeaves.holds]
  have reads : ∀ register : Nat, register ∈ [left, right] → register < Reg.machineCount ∨ rightWritten register := by
    simp only [List.mem_cons, List.not_mem_nil, or_false, forall_eq_or_imp, forall_eq]
    exact ⟨leftLeaves.ready.imp_right (rightLeaves.written left), rightLeaves.ready⟩
  have done : effect around (labelPlace? final) after (.alu op last.function.registers.size left right) =
      some (.plain after (.set last.function.registers.size value)) := by
    rw [effect, around.operate_integer (AluOp.isInteger_of_evaluate folds), leftHolds, rightLeaves.holds, folds]
    rfl
  have lastFits := fits.trans (lower.registers.trans upper.registers)
  obtain ⟨laterSteps, laterWritten, later, run, leaves⟩ :=
    leaves_add begins rightRun rightLeaves.place reads rfl (size_ne_zero lastFits) (Nat.le_refl _) done
  exact ⟨laterSteps, laterWritten, later, run,
    leftLeaves.trans (rightLeaves.trans leaves upper.registers) lower.registers⟩

structure Computes (code : Gen Reg) (value : Int32) : Prop where
  makes : ∀ demand, Gives demand code
  lengthens : ∀ state, Lengthens state (code state).2
  isValue : ∀ state, (code state).1 = Reg.zero ∨ (code state).1 < (code state).2.function.registers.size
  runs : ∀ state, Reg.machineCount ≤ state.function.registers.size → RunsTo state (code state).2 (code state).1 value

theorem toTemp_lt (state : State) (instr : Instr) :
    state.function.registers.size < (state.withTemp.add instr).function.registers.size :=
  Nat.lt_of_lt_of_eq (Nat.lt_succ_self _) (Array.size_push _).symm

theorem computes_zero : Computes (pure Reg.zero) 0 where
  makes _ := gives_zero
  lengthens _ := ⟨List.prefix_rfl, Nat.le_refl _, fun _ => Or.inl⟩
  isValue _ := Or.inl rfl
  runs _ _ := by
    intro μ around final first steps written machine begins careful here
    have machineZero : Reg.zero < Reg.machineCount := by decide
    exact ⟨_, _, _, careful, here, machine.read_zero, Or.inl machineZero, fun _ => id, fun _ _ => rfl, rfl, rfl⟩

theorem computes_constant (value : Int32) : Computes (Emit.constant value) value where
  makes _ := gives_constant value
  lengthens state := lengthens_toTemp state rfl
  isValue state := Or.inr (toTemp_lt state _)
  runs _ fits := runsTo_constant fits value

theorem Computes.alu {left right : Gen Reg} {leftValue rightValue : Int32} (leftComputes : Computes left leftValue)
    (rightComputes : Computes right rightValue) (folds : op.evaluate? leftValue rightValue = some value) :
    Computes (do Emit.alu op (← left) (← right)) value where
  makes demand := .bind (leftComputes.makes demand).steady fun _ =>
    .bind (rightComputes.makes demand).steady fun _ => gives_alu ..
  lengthens state := (leftComputes.lengthens state).trans ((rightComputes.lengthens _).trans (lengthens_toTemp _ rfl))
  isValue _ := Or.inr (toTemp_lt _ _)
  runs state fits :=
    have longer := leftComputes.lengthens state
    (leftComputes.runs state fits).alu (rightComputes.runs _ (fits.trans longer.registers)) (leftComputes.isValue state)
      longer (rightComputes.lengthens _) fits folds

theorem binaryCode_value (integer : op.isInteger = true) (left right : ExprCode) :
    (binaryCode op left right).value = binaryValue op left right := by
  cases op <;> first | rfl | simp [AluOp.isInteger] at integer

/-- No part of an expression is a real with its sign changed. The check sees to this where a value is known as an integer:
it casts words to words only, and changes the sign of a real only if the operand is one. -/
def NegatesIntegers (expr : Expr) : Prop :=
  ∀ part ∈ expr.within, ∀ operand, part.shape = .minus operand → part.type ≠ .real

theorem negatesIntegers_of_holds {basis : Analysis.Basis} {expr : Expr} {type : Ty} (holds : basis.Holds expr)
    (known : expr.constant? = some (.int value type)) : NegatesIntegers expr := by
  unfold NegatesIntegers
  fun_induction Expr.constant? expr generalizing value type with
  | case1 => simp [Expr.within, Typed.ExprShape.within, Expr.shape]
  | case4 operand _ _ _ _ found ih =>
    obtain ⟨own, inner⟩ : _ ∧ basis.Holds operand := List.forall_mem_cons.mp holds
    refine List.forall_mem_cons.mpr ⟨fun _ _ real => ?_, ih inner found⟩
    have counted := own.names ▸ Ty.isCounted_promoted (inner.hasType found).2
    rw [show _ = Ty.real from real] at counted
    cases counted
  | case7 operand _ _ _ _ found ih =>
    refine List.forall_mem_cons.mpr ⟨fun _ minus => (by cases minus), ih (List.forall_mem_cons.mp holds).2 found⟩
  | case8 _ _ _ notInteger => exact absurd known (notInteger _ _)
  | case9 op left right _ _ leftKnown rightKnown rightFound leftFound leftIh rightIh =>
    have inner := List.forall_mem_append.mp (List.forall_mem_cons.mp holds).2
    cases leftKnown <;> cases rightKnown <;> simp only [Typed.foldBinary?, reduceCtorEq] at known
    case int.int =>
      exact List.forall_mem_cons.mpr ⟨fun _ minus => (by cases minus),
        List.forall_mem_append.mpr ⟨leftIh inner.1 leftFound, rightIh inner.2 rightFound⟩⟩
    case real.real => simp at known
  | _ => cases known

theorem exprCode_computes (table : Declarations) {expr : Expr} {type : Ty}
    (folds : expr.constant? = some (.int value type)) (integers : NegatesIntegers expr) :
    Computes (exprCode table expr).value value := by
  fun_induction Expr.constant? expr generalizing value type with
  | case1 known =>
    obtain ⟨rfl, _⟩ := Constant.int.inj (Option.some.inj folds)
    exact computes_constant known
  | case4 operand span nodeType known _ found ih =>
    obtain ⟨rfl, _⟩ := Constant.int.inj (Option.some.inj folds)
    obtain ⟨own, inner⟩ := List.forall_mem_cons.mp integers
    have negates : AluOp.subI.evaluate? 0 known = some (-known) := by simp [AluOp.evaluate?]
    have integer : nodeType ≠ .real := own operand rfl
    simp only [exprCode, shapeCode, minusValue, if_neg integer]
    exact computes_zero.alu (ih found inner) negates
  | case7 operand span _ known _ found ih =>
    obtain ⟨rfl, _⟩ := Constant.int.inj (Option.some.inj folds)
    exact ih found (List.forall_mem_cons.mp integers).2
  | case8 _ _ _ notInteger => exact absurd folds (notInteger _ _)
  | case9 op left right span _ leftKnown rightKnown rightFound leftFound leftIh rightIh =>
    have inner := List.forall_mem_append.mp (List.forall_mem_cons.mp integers).2
    cases leftKnown <;> cases rightKnown <;> simp only [Typed.foldBinary?, reduceCtorEq, Option.map_eq_some_iff] at folds
    case int.int leftValue leftType rightValue rightType =>
      obtain ⟨result, evaluates, same⟩ := folds
      obtain ⟨rfl, _⟩ := Constant.int.inj same
      simp only [exprCode, shapeCode, binaryCode_value (AluOp.isInteger_of_evaluate evaluates)]
      exact (leftIh leftFound inner.1).alu (rightIh rightFound inner.2) evaluates
    case real.real => simp at folds
  | _ => cases folds

def enteredState (name : String) : State :=
  ⟨{}, enteredFunction name true, none, []⟩

def movedState (name : String) (code : Gen Reg) : State :=
  (code (enteredState name)).2.add (.move Reg.result (code (enteredState name)).1)

def valueFunction (name : String) (code : Gen Reg) : Ir.Function :=
  ((movedState name code).add (.ret true)).function

theorem lengthens_valueFunction (name : String) (code : Gen Reg) :
    Lengthens (code (enteredState name)).2 (movedState name code) ∧
      Lengthens (movedState name code) ((movedState name code).add (.ret true)) :=
  ⟨lengthens_add _ _ rfl, lengthens_add _ _ rfl⟩

theorem valueFunction_tidy (makes : ∀ demand, Gives demand code) (name : String) :
    Tidy ⟨Reg.result, Nat.le_refl _, by decide⟩ True (valueFunction name code) := by
  let demand : Demand := ⟨{}, ⟨Reg.result, Nat.le_refl _, by decide⟩, True, True, False⟩
  have whole : Steady demand [] (do Emit.add (.move Reg.result (← code)); Emit.add (.ret true) : Gen Unit) :=
    .bind (makes demand).steady fun _ => .bind (steady_setSmall rfl rfl fun _ => demand.limit.result) fun _ =>
      steady_add rfl
  have entered : Orderly demand topSetting.ofFunction
      ((enteredState name).entering { Function.empty name true with code := #[.start] }) :=
    .entering False.elim False.elim (fun _ => List.forall_mem_nil _) name true (Or.inr rfl)
  exact (((whole.lays _).runs _ entered).1.writes trivial).tidy

theorem Computes.valueFunction_wellFormed (computes : Computes code value) (name : String) :
    (valueFunction name code).WellFormed := by
  refine ⟨?_, ?_⟩
  · intro register small
    simpa [Function.isMachine] using (valueFunction_tidy computes.makes name).fit.kinds register small
  · intro instr member label labelled
    obtain ⟨moved, returned⟩ := lengthens_valueFunction name code
    rcases ((computes.lengthens _).trans (moved.trans returned)).plain instr member with first | plain
    · obtain rfl : instr = .start := by simpa [enteredState, enteredFunction] using first
      cases labelled
    · simp [plain] at labelled

theorem Computes.valueFunction_runs (computes : Computes code value) (name : String)
    (around : Surroundings μ) (registers : Reg → Int32) (memory : μ) :
    ∃ steps written last, CarefulRun around (valueFunction name code).code (.entry registers memory) steps written last ∧
      (valueFunction name code).code[last.place]? = some (.ret true) ∧ last.read Reg.result = value ∧
      last.memory = memory ∧ last.trace = [] := by
  obtain ⟨moved, returned⟩ := lengthens_valueFunction name code
  have moveBegins := moved.code.trans returned.code
  have entry : (valueFunction name code).code[0]? = some .start := by
    rw [← Array.getElem?_toList]
    exact getElem?_of_begins ((computes.lengthens _).code.trans moveBegins) rfl
  have taken : step around (valueFunction name code).code (.entry registers memory) =
      some ((MachineState.entry registers memory).goto 1) := by
    rw [step_eq entry]
    rfl
  have fits : Reg.machineCount ≤ (enteredState name).function.registers.size := by
    simp [enteredState, enteredFunction, Function.empty]
  obtain ⟨_, written, holding, holdingRun, holds⟩ :=
    computes.runs (enteredState name) fits moveBegins (.step .start entry (by simp [Instr.uses]) taken) rfl
  have reads : ∀ register : Nat, register ∈ [(code (enteredState name)).1] →
      register < Reg.machineCount ∨ written register := by
    simpa using holds.ready
  obtain ⟨steps, lastWritten, last, lastRun, leaves⟩ :=
    leaves_add returned.code holdingRun holds.place reads rfl (by decide) (Nat.zero_le _) rfl
  refine ⟨steps, lastWritten, last, lastRun, ?_, ?_, ?_, ?_⟩
  · rw [leaves.place, ← Array.getElem?_toList]
    simp [valueFunction, movedState, State.add]
  · rw [leaves.holds, holds.holds]
  · exact leaves.memory.trans holds.memory
  · exact leaves.trace.trans holds.trace

/-- The value of a constant expression is what its code leaves in its register, from any state of the machine, and what a
function that returns it still gives after simplification. This holds of all checked nodes, and of others that change the
sign of no real. -/
theorem folded_constant_is_computed (table : Declarations) {expr : Expr} {value : Int32} {type : Ty}
    (folds : expr.constant? = some (.int value type))
    (checked : (∃ basis : Analysis.Basis, basis.Holds expr) ∨ NegatesIntegers expr) :
    (∀ state : State, Reg.machineCount ≤ state.function.registers.size →
      ∀ {μ : Type} (around : Surroundings μ) (final : Array Instr) (machine : MachineState μ),
      ((exprCode table expr).value state).2.function.code.toList <+: final.toList →
      machine.place = state.function.code.size →
      ∃ steps written later, CarefulRun around final machine steps written later ∧
        later.place = ((exprCode table expr).value state).2.function.code.size ∧
        later.read ((exprCode table expr).value state).1 = value ∧
        later.memory = machine.memory ∧ later.trace = machine.trace) ∧
    ∀ name, ∃ optimised, (valueFunction name (exprCode table expr).value).simplify = .ok optimised ∧
      ∀ {μ : Type} (around : Surroundings μ) (registers : Reg → Int32) (memory : μ),
        ∃ steps written last, CarefulRun around optimised.code (.entry registers memory) steps written last ∧
          optimised.code[last.place]? = some (.ret true) ∧ last.read Reg.result = value ∧
          last.memory = memory ∧ last.trace = [] := by
  have integers : NegatesIntegers expr := by
    rcases checked with ⟨basis, holds⟩ | integers
    · exact negatesIntegers_of_holds holds folds
    · exact integers
  have computes := exprCode_computes table folds integers
  constructor
  · intro state fits μ around final machine begins here
    obtain ⟨steps, written, later, run, leaves⟩ := computes.runs state fits begins .start here
    exact ⟨steps, written, later, run, leaves.place, leaves.holds, leaves.memory, leaves.trace⟩
  · intro name
    obtain ⟨optimised, done⟩ := Function.simplifyWithin_isOk (valueFunction name (exprCode table expr).value).simplifyBound
      ((valueFunction_tidy computes.makes name).once trivial)
    refine ⟨optimised, done, ?_⟩
    intro μ around registers memory
    obtain ⟨_, _, state, careful, returns, holds, sameMemory, sameTrace⟩ :=
      computes.valueFunction_runs name around registers memory
    have preserves : Preserves around (valueFunction name (exprCode table expr).value).code optimised.code :=
      Function.simplifyWithin_preserves _ (computes.valueFunction_wellFormed name) done
    obtain ⟨_, runs⟩ := preserves
    obtain ⟨steps, written, last, run, agree, _⟩ := runs registers memory _ _ state careful
    exact ⟨steps, written, last, run, agree.returns true returns, (agree.machine _ (by decide)).trans holds,
      agree.memory.trans sameMemory, agree.trace.trans sameTrace⟩

def wrappingConstant : Expr :=
  .mk (.binary .subI
    (.mk (.binary .divI (.mk (.int (-2147483648)) default .int)
      (.mk (.minus (.mk (.int 1) default .int)) default .int)) default .int)
    (.mk (.cast (.mk (.binary .shlI (.mk (.int 1) default .int) (.mk (.int 33) default .int)) default .char))
      default .int)) default .int

theorem folded_constant_is_computed_wrapping :
    wrappingConstant.constant? = some (.int 2147483646 .int) ∧ NegatesIntegers wrappingConstant ∧
      ∃ optimised, (valueFunction "limit" (exprCode {} wrappingConstant).value).simplify = .ok optimised ∧
        ∃ steps written last, CarefulRun .none optimised.code (.entry (fun _ => 7) ()) steps written last ∧
          optimised.code[last.place]? = some (.ret true) ∧ last.read Reg.result = 2147483646 := by
  have folds : wrappingConstant.constant? = some (.int 2147483646 .int) := by decide
  have integers : NegatesIntegers wrappingConstant := by
    simp [NegatesIntegers, wrappingConstant, Expr.within, Typed.ExprShape.within, Expr.type]
  obtain ⟨optimised, done, runs⟩ := (folded_constant_is_computed {} folds (.inr integers)).2 "limit"
  obtain ⟨steps, written, last, run, returns, holds, _⟩ := runs .none (fun _ => 7) ()
  exact ⟨folds, integers, optimised, done, steps, written, last, run, returns, holds⟩

end FplCompiler.Codegen
