import FplCompiler.Proofs.ConditionCode

/-!
The code of every expression of the language follows its evaluation, as a value and as a condition: jumps out of
expressions, calls that overwrite the registers of arguments, and the induction over expressions.
-/

namespace FplCompiler.Codegen

open Ir Reference

open Typed (Expr ExprShape)

variable {μ : Type} {around : Surroundings μ} {passes count : Nat} {inLoop : Bool} {course : Course around passes}
  {machine : MachineState μ} {store : Store μ} {register : Nat} {state later : State} {code : Gen (List Reg)}

theorem return_valueCode :
    ValueCode around passes inLoop (returnValue none) (Eval.jump (.leaveFunction none)) := by
  refine .ofMakes (.mono (.bind (.add (.jump Function.returnLabel)) fun _ => .pure Reg.zero) ?_) fun _ _ => .inl rfl
  rintro course state _ _ ⟨_, _, -, jumps, rfl, rfl⟩ machine store place related
  exact ⟨_, jumps.reaches jumps.finished.leaveFunction place, related.goto _, rfl, by simp⟩

theorem returnValue_valueCode {value : ExprCode} {operandValue : Eval μ Int32}
    (code : ValueCode around passes inLoop value.value operandValue) :
    ValueCode around passes inLoop (returnValue (some value))
      (do Eval.jump (.leaveFunction (some (← operandValue)))) := by
  refine .ofMakes (.mono (.bind code.makes fun register => .bind (.add (.move Reg.result register)) fun _ =>
    .bind (.add (.jump Function.returnLabel)) fun _ => .pure Reg.zero) ?_) fun _ _ => .inl rfl
  rintro course state _ _ ⟨register, _, -, ⟨-, runs⟩, _, _, -, moves, _, _, -, jumps, rfl, rfl⟩ machine store place related
  refine (runs machine store place related).bind ?_
  rintro _ afterStore computed afterRelated - ⟨⟨computedPlace, rfl⟩, -⟩
  refine moves.set (moves.free (by decide : Reg.result < _) (by decide)) computedPlace afterRelated rfl ?_
  intro moved movedPlace movedRelated result _
  refine ⟨_, jumps.reaches jumps.finished.leaveFunction movedPlace, movedRelated.goto _, rfl, ?_⟩
  exact fun word same => result.trans (Option.some.inj same)

theorem get_apply (state : State) : (get : Gen State) state = (state, state) :=
  rfl

theorem breakValue_apply (state : State) :
    breakValue state =
      (Reg.zero, match state.loop with
        | some labels => state.add (.jump labels.breakLabel)
        | none => state) := by
  rw [breakValue, bind_apply, get_apply]
  cases state.loop <;> rfl

theorem break_valueCode (needed : inLoop = true) :
    ValueCode around passes inLoop breakValue (Eval.jump .leaveLoop) := by
  refine .ofMakes ⟨fun state _ => ?_, fun course state _ holds machine store place related => ?_⟩
    fun state _ => .inl (congrArg Prod.fst (breakValue_apply state))
  · rw [breakValue_apply]
    cases state.loop with
    | none => exact .refl state
    | some labels => exact .addPlain state rfl
  · obtain ⟨labels, given⟩ := Option.isSome_iff_exists.mp (holds.inside needed)
    rw [breakValue_apply, given] at holds
    have jumps := holds.adds state rfl rfl
    exact ⟨_, jumps.reaches (holds.finished.leaveLoop labels given) place, related.goto _, fun _ _ => rfl, rfl⟩

theorem continueValue_apply (state : State) :
    continueValue state =
      (Reg.zero, match (Gen.continueLabel? state).1 with
        | some target => (Gen.continueLabel? state).2.add (.jump target)
        | none => (Gen.continueLabel? state).2) := by
  rw [continueValue, bind_apply]
  cases (Gen.continueLabel? state).1 <;> rfl

theorem continue_valueCode (needed : inLoop = true) :
    ValueCode around passes inLoop continueValue (Eval.jump .nextPass) := by
  refine .ofMakes ⟨fun state _ => ?_, fun course state _ holds machine store place related => ?_⟩
    fun state _ => .inl (congrArg Prod.fst (continueValue_apply state))
  · rw [continueValue_apply]
    cases given : state.loop with
    | none =>
      have nothing : Gen.continueLabel? state = (none, state) := by
        rw [Gen.continueLabel?, bind_apply, get_apply, given]
        rfl
      rw [nothing]
      exact .refl state
    | some labels =>
      have step := later_continueLabel given
      cases (Gen.continueLabel? state).1 with
      | none => exact step
      | some target => exact step.trans (.addPlain _ rfl)
  · obtain ⟨labels, given⟩ := Option.isSome_iff_exists.mp (holds.inside needed)
    rw [continueValue_apply, continueLabel?_apply given] at holds
    cases next : labels.continueLabel with
    | some target =>
      rw [next] at holds
      have placed := holds.finished.nextPass target (by simp [State.nextPass?, State.add, given, next])
      exact ⟨_, (holds.adds state rfl rfl).reaches placed place, related.goto _, fun _ _ => rfl, rfl⟩
    | none =>
      rw [next] at holds
      have placed := holds.finished.nextPass state.function.labelCount rfl
      exact ⟨_, (holds.adds _ rfl rfl).reaches placed place, related.goto _, fun _ _ => rfl, rfl⟩

structure ValuesCode (around : Surroundings μ) (passes : Nat) (inLoop : Bool) (count : Nat) (code : Gen (List Reg))
    (values : Eval μ (List Int32)) : Prop where
  makes : Makes inLoop [] code fun (course : Course around passes) state registers later =>
    registers.length = count ∧ (∀ register ∈ registers, IsValue later register) ∧
      course.Runs state values fun words last => last.place = later.function.code.size ∧ registers.map last.read = words

theorem ValuesCode.keeps {values : Eval μ (List Int32)}
    (valuesCode : ValuesCode around passes inLoop count code values) :
    Makes inLoop [] code fun (course : Course around passes) state registers later =>
      registers.length = count ∧ (∀ register ∈ registers, IsValue later register) ∧
        course.RunsKeeping state values fun words last =>
          last.place = later.function.code.size ∧ registers.map last.read = words where
  later := valuesCode.makes.later
  runs course state owns holds := by
    obtain ⟨length, areValues, _⟩ := valuesCode.makes.runs course state owns holds
    exact ⟨length, areValues, holds.runsKeeping fun keep kept =>
      (valuesCode.makes.runs (course.keeping keep) state owns kept).2.2⟩

theorem ValuesCode.nil : ValuesCode around passes inLoop 0 (pure []) (pure []) := by
  refine ⟨.mono (.pure []) ?_⟩
  rintro course state _ _ ⟨rfl, rfl⟩
  exact ⟨rfl, by simp, fun machine store place related => .done related ⟨place, rfl⟩⟩

theorem ValuesCode.cons {first : Gen Reg} {rest : Gen (List Reg)} {firstValue : Eval μ Int32}
    {restValues : Eval μ (List Int32)} (firstCode : ValueCode around passes inLoop first firstValue)
    (restCode : ValuesCode around passes inLoop count rest restValues) :
    ValuesCode around passes inLoop (count + 1) (do return (← first) :: (← rest))
      (do return (← firstValue) :: (← restValues)) := by
  refine ⟨.mono (.bind firstCode.makes fun head => .bind restCode.keeps fun tail => .pure (head :: tail)) ?_⟩
  rintro course state _ _ ⟨head, _, -, ⟨isValue, headRuns⟩, tail, _, toTail, ⟨length, areValues, tailRuns⟩, rfl, rfl⟩
  refine ⟨congrArg (· + 1) length, List.forall_mem_cons.mpr ⟨toTail.isValue isValue, areValues⟩, ?_⟩
  intro machine store place related
  refine (headRuns machine store place related).bind ?_
  rintro _ headStore afterHead headRelated - ⟨⟨headPlace, rfl⟩, -⟩
  refine (tailRuns afterHead headStore headPlace headRelated).bind ?_
  rintro _ tailStore afterTail tailRelated - ⟨⟨tailPlace, rfl⟩, kept⟩
  exact .done tailRelated ⟨tailPlace, congrArg (· :: _) (kept.value isValue)⟩

def passFrom (arguments : List Reg) (index : Nat) : Gen Unit :=
  (arguments.zipIdx index).forM fun entry => Emit.add (.move (Reg.argument entry.2) entry.1)

theorem Makes.passFrom (arguments : List Reg) (index : Nat) :
    Makes inLoop [] (Codegen.passFrom arguments index) fun (course : Course around passes) state _ later =>
      index + arguments.length ≤ Reg.result →
      (∀ register ∈ arguments, register = Reg.zero ∨ Reg.machineCount ≤ register) →
      ∀ machine store, machine.place = state.function.code.size → Related course.final store machine →
        ∃ last, Reaches around course.final.code machine last ∧ Related course.final store last ∧
          last.place = later.function.code.size ∧
          (∀ register : Nat, register ≤ index ∨ Reg.machineCount ≤ register →
            last.read register = machine.read register) ∧
          (List.range' index arguments.length).map (fun position => last.read (Reg.argument position)) =
            arguments.map machine.read := by
  induction arguments generalizing index with
  | nil =>
    refine .mono (.pure ()) ?_
    rintro course state _ _ ⟨-, rfl⟩ - - machine store place related
    exact ⟨machine, .refl machine, related, place, fun _ _ => rfl, rfl⟩
  | cons register rest ih =>
    refine .mono (.bind (.add (.move (Reg.argument index) register)) fun _ => ih (index + 1)) ?_
    rintro course state _ later ⟨_, _, -, moves, passes⟩ few values machine store place related
    rw [List.length_cons] at few
    obtain ⟨_, others⟩ := List.forall_mem_cons.mp values
    have small : index + 1 < Reg.machineCount :=
      Nat.lt_of_le_of_lt (by omega : index + 1 ≤ Reg.result) (by decide : Reg.result < Reg.machineCount)
    have nonzero : Reg.argument index ≠ Reg.zero := Nat.succ_ne_zero index
    have moved := machine.read_assign nonzero (machine.read register)
    obtain ⟨last, reaches, lastRelated, lastPlace, kept, passed⟩ := passes (by omega) others
      (machine.assign (Reg.argument index) (machine.read register)) store
      ((congrArg (· + 1) place).trans moves.size.symm)
      (related.assign nonzero (moves.free small nonzero).unnamed (machine.read register))
    refine ⟨last, (Reaches.assign (moves.foundAt place) rfl).trans reaches, lastRelated, lastPlace, ?_, ?_⟩
    · intro other notArgument
      have different : other ≠ Reg.argument index := (by omega : other ≠ index + 1)
      rw [kept other (by omega), moved, if_neg different]
    · rw [List.length_cons, List.range'_succ, List.map_cons, passed]
      congr 1
      · exact (kept (index + 1) (Or.inl (Nat.le_refl _))).trans ((moved (index + 1)).trans (if_pos rfl))
      · apply List.map_congr_left
        intro other member
        have different : other ≠ Reg.argument index := by
          rintro rfl
          rcases others _ member with zero | older
          · exact nonzero zero
          · exact absurd small (Nat.not_lt.mpr older)
        rw [moved, if_neg different]

def answered (machine : MachineState μ) (answer : Answer μ) (event : Event) : MachineState μ :=
  Effect.apply machine ⟨machine.place + 1, answer.memory, [event], .clobber answer.contents⟩

theorem read_answered (machine : MachineState μ) (answer : Answer μ) (event : Event)
    (virtual : Reg.machineCount ≤ register) :
    (answered machine answer event).read register = machine.read register := by
  have unsaved : ¬ IsCallerSaved register := fun saved =>
    absurd (Nat.le_trans virtual saved.2) (by decide)
  have nonzero : register ≠ Reg.zero := by
    rintro rfl
    exact absurd virtual (by decide)
  rw [answered, Effect.read_apply _ _ nonzero, machine.read_of_ne nonzero]
  exact if_neg unsaved

theorem Related.answered {final : Ir.Function} (related : Related final store machine)
    (regular : Regular final) (answer : Answer μ) (event : Event) :
    Related final { store with memory := answer.memory, trace := event :: store.trace }
      (answered machine answer event) := by
  refine ⟨rfl, congrArg (event :: ·) related.trace, ?_⟩
  intro symbol value given
  obtain ⟨register, home, read⟩ := related.holds symbol value given
  exact ⟨register, home, (read_answered machine answer event (regular.homes symbol register home).1).trans read⟩

/-- How a call leaves its result, if it has one. -/
theorem Makes.result (returns : Bool) :
    Makes inLoop [] (if returns then liftM (Emit.toTemp fun dest => .move dest Reg.result) else return Reg.zero)
      fun (course : Course around passes) state register later =>
        ∀ machine store, machine.place = state.function.code.size → Related course.final store machine →
          course.Follows machine (.done (if returns then machine.read Reg.result else 0) store)
            (Delivers register later) := by
  cases returns with
  | false =>
    refine .mono (.pure Reg.zero) ?_
    rintro course state _ _ ⟨rfl, rfl⟩ machine store place related
    exact .done related ⟨place, machine.read_zero⟩
  | true =>
    refine .mono (.toTemp (fun dest => .move dest Reg.result) fun _ => rfl) ?_
    rintro course state register later ⟨fresh, adds⟩ machine store place related
    exact fresh.done adds place related rfl

theorem call_eq (target : String) (arguments : List Reg) (returns : Bool) :
    Gen.call target arguments returns = (do
      passFrom arguments 0
      Emit.add (.call target arguments.length returns)
      if returns then liftM (Emit.toTemp fun dest => .move dest Reg.result) else return Reg.zero : Gen Reg) := by
  cases returns <;> rfl

theorem Makes.call (target : String) (arguments : List Reg) (returns : Bool) :
    Makes inLoop [] (Gen.call target arguments returns) fun (course : Course around passes) state register later =>
      arguments.length ≤ Reg.result → (∀ register ∈ arguments, IsValue state register) →
      ∀ machine store, machine.place = state.function.code.size → Related course.final store machine →
        course.Follows machine (Eval.call around target returns (arguments.map machine.read) store)
          (Delivers register later) := by
  rw [call_eq]
  refine .mono (.bind (.passFrom arguments 0) fun _ => .bind (.add (.call target arguments.length returns)) fun _ =>
    .result returns) ?_
  rintro course state register later ⟨_, _, -, passes, _, _, -, calls, results⟩ few values machine store place related
  obtain ⟨before, reaches, beforeRelated, beforePlace, kept, passed⟩ := passes (by omega)
    (fun register member => (values register member).imp_right And.left) machine store place related
  rw [← List.range_eq_range'] at passed
  have words : (Instr.argumentRegisters arguments.length).map before.read = arguments.map machine.read := by
    rw [← passed, Instr.argumentRegisters, List.map_map]
    rfl
  rw [Eval.call]
  cases answers : around.call store.memory (.named target) (arguments.map machine.read) with
  | none => trivial
  | some answer =>
    let event : Event := .called (.named target) (arguments.map machine.read)
    have done : effect around (labelPlace? course.final.code) before (.call target arguments.length returns) =
        some ⟨before.place + 1, answer.memory, [event], .clobber answer.contents⟩ := by
      simp [effect, callEffect, words, beforeRelated.memory, answers, event]
    refine .after (reaches.trans ⟨1, run_one (calls.foundAt beforePlace) done⟩) ?_ (results (answered before answer event) _
      ((congrArg (· + 1) beforePlace).trans calls.size.symm) (beforeRelated.answered calls.finished.regular answer event))
    intro register keep
    have virtual := (calls.older register keep).1
    exact (read_answered before answer event virtual).trans (kept register (Or.inr virtual))

theorem ValuesCode.call {words : Eval μ (List Int32)}
    (argumentsCode : ValuesCode around passes inLoop count code words) (few : count ≤ Reg.result) (target : String)
    (returns : Bool) :
    ValueCode around passes inLoop (do Gen.call target (← code) returns)
      (do Eval.call around target returns (← words)) := by
  refine .ofMakes (.mono (.bind argumentsCode.makes fun arguments => .call target arguments returns) ?_)
    fun state ready => ?_
  · rintro course state register later ⟨arguments, _, -, ⟨rfl, areValues, runs⟩, calls⟩ machine store place related
    refine (runs machine store place related).bind ?_
    rintro _ afterStore last afterRelated - ⟨lastPlace, rfl⟩
    exact calls few areValues last afterStore lastPlace afterRelated
  · have passed := (argumentsCode.makes.bind fun arguments => .passFrom arguments 0).later state (.none ready)
    have called := passed.trans (.addPlain _ (rfl : placed? (.call target (code state).1.length returns) = none))
    cases returns with
    | false => exact .inl rfl
    | true => exact isValue_toTemp (called.ready ready) _

structure CodeFor (around : Surroundings μ) (passes : Nat) (inLoop : Bool) (code : ExprCode) (word : Eval μ Int32) :
    Prop where
  value : ValueCode around passes inLoop code.value word
  branch : BranchCode around passes inLoop code.branch word

theorem ValueCode.codeFor {code : Gen Reg} {value : Eval μ Int32}
    (valueCode : ValueCode around passes inLoop code value) : CodeFor around passes inLoop (.ofValue code) value :=
  ⟨valueCode, valueCode.asBranch⟩

theorem shortCircuit_truth (decisive : Bool) (left right : Eval μ Int32) :
    (do return AluOp.truth ((← shortCircuit decisive left right) ≠ 0)) = shortCircuit decisive left right := by
  simp only [shortCircuit, bind_assoc]
  congr 1
  funext word
  split <;> cases decisive <;> simp [AluOp.truth]

theorem BranchCode.codeFor {code : Label → Bool → Gen Unit} {decisive : Bool} {left right : Eval μ Int32}
    (branchCode : BranchCode around passes inLoop code (shortCircuit decisive left right)) :
    CodeFor around passes inLoop (.ofBranch code) (shortCircuit decisive left right) :=
  ⟨shortCircuit_truth decisive left right ▸ branchCode.asValue, branchCode⟩

theorem binaryCode_codeFor {op : AluOp} (integer : op.isInteger = true) {left right : ExprCode}
    {leftValue rightValue : Eval μ Int32} (leftCode : ValueCode around passes inLoop left.value leftValue)
    (rightCode : ValueCode around passes inLoop right.value rightValue) :
    CodeFor around passes inLoop (binaryCode op left right)
      (do Eval.ofOption (op.evaluate? (← leftValue) (← rightValue))) := by
  have noString : op.ofStringComparison? = none := by
    cases op <;> first | rfl | simp [AluOp.isInteger] at integer
  rw [binaryCode, noString]
  cases inverts : op.inverse? with
  | none => exact (leftCode.alu rightCode integer).codeFor
  | some inverse => exact ⟨leftCode.alu rightCode integer, leftCode.compare rightCode inverts⟩

mutual

theorem exprCode_codeFor (table : Declarations) : (expr : Expr) → isStructured inLoop expr = true →
    CodeFor around passes inLoop (exprCode table expr) (evalExpr around table expr)
  | .mk shape _ type, structured => by
    rw [isStructured] at structured
    rw [exprCode, evalExpr]
    exact shapeCode_codeFor table type shape structured

theorem shapeCode_codeFor (table : Declarations) (type : Ty) : (shape : ExprShape) →
    shapeIsStructured inLoop type shape = true →
    CodeFor around passes inLoop (shapeCode table type shape) (evalShape around table shape)
  | .int value, _ => by
    rw [shapeCode, evalShape]
    exact ⟨constant_valueCode value, int_branchCode value⟩
  | .localVar symbol, _ => by
    rw [shapeCode, evalShape]
    exact (variable_valueCode table symbol).codeFor
  | .binary op left right, structured => by
    simp only [shapeIsStructured, Bool.and_eq_true] at structured
    rw [shapeCode, evalShape]
    exact binaryCode_codeFor structured.1.1 (exprCode_codeFor table left structured.1.2).value
      (exprCode_codeFor table right structured.2).value
  | .and left right, structured => by
    simp only [shapeIsStructured, Bool.and_eq_true] at structured
    rw [shapeCode, evalShape]
    exact ((exprCode_codeFor table left structured.1).branch.and
      (exprCode_codeFor table right structured.2).branch).codeFor
  | .or left right, structured => by
    simp only [shapeIsStructured, Bool.and_eq_true] at structured
    rw [shapeCode, evalShape]
    exact ((exprCode_codeFor table left structured.1).branch.or
      (exprCode_codeFor table right structured.2).branch).codeFor
  | .not operand, structured => by
    rw [shapeIsStructured] at structured
    rw [shapeCode, evalShape]
    have code := exprCode_codeFor table operand structured
    exact ⟨code.value.negation, code.branch.not⟩
  | .minus operand, structured => by
    simp only [shapeIsStructured, Bool.and_eq_true, decide_eq_true_eq] at structured
    rw [shapeCode, evalShape, minusValue, if_neg structured.1]
    exact (exprCode_codeFor table operand structured.2).value.minus.codeFor
  | .returnExpr none, _ => by
    rw [shapeCode, evalShape]
    exact return_valueCode.codeFor
  | .returnExpr (some value), structured => by
    rw [shapeIsStructured] at structured
    rw [shapeCode, evalShape]
    exact (returnValue_valueCode (exprCode_codeFor table value structured).value).codeFor
  | .breakExpr, structured => by
    rw [shapeIsStructured] at structured
    rw [shapeCode, evalShape]
    exact (break_valueCode structured).codeFor
  | .continueExpr, structured => by
    rw [shapeIsStructured] at structured
    rw [shapeCode, evalShape]
    exact (continue_valueCode structured).codeFor
  | .conditional condition thenBranch elseBranch, structured => by
    simp only [shapeIsStructured, Bool.and_eq_true] at structured
    rw [shapeCode, evalShape]
    exact (conditional_valueCode (exprCode_codeFor table condition structured.1.1).branch
      (exprCode_codeFor table thenBranch structured.1.2).value
      (exprCode_codeFor table elseBranch structured.2).value).codeFor
  | .call (.mk (.functionName _ function) _ _) arguments, structured => by
    simp only [shapeIsStructured, Bool.and_eq_true, decide_eq_true_eq] at structured
    rw [shapeCode, evalShape]
    exact ((exprCodes_valuesCode table arguments structured.2).call structured.1 _ _).codeFor

theorem exprCodes_valuesCode (table : Declarations) : (exprs : List Expr) → allStructured inLoop exprs = true →
    ValuesCode around passes inLoop exprs.length (values (exprCodes table exprs)) (evalExprs around table exprs)
  | [], _ => by
    rw [exprCodes, evalExprs]
    exact .nil
  | expr :: rest, structured => by
    simp only [allStructured, Bool.and_eq_true] at structured
    rw [exprCodes, evalExprs, values, List.mapM_cons]
    exact .cons (exprCode_codeFor table expr structured.1).value (exprCodes_valuesCode table rest structured.2)

end

end FplCompiler.Codegen
