import FplCompiler.Proofs.Simulation

/-!
The code of operators and conditions follows their evaluation, in both directions of a branch: a comparison that is
inverted, an "and" or "or" that jumps as soon as it is decided, and a value that a condition becomes.
-/

namespace FplCompiler.Codegen

open Ir Reference

variable {μ : Type} {around : Surroundings μ} {passes : Nat} {inLoop : Bool} {course : Course around passes}
  {machine : MachineState μ} {state middle later : State} {store : Store μ} {site target : Label} {targetPlace : Nat}
  {α : Type} {outcome : Outcome μ α} {result : α → MachineState μ → Prop}

theorem isValue_toTemp (ready : Ready state) (instr : Instr) :
    IsValue (state.withTemp.add instr) state.function.registers.size :=
  .inr ⟨ready.regular.machine, (Nat.lt_succ_self _).trans_eq (Array.size_push _).symm⟩

theorem constant_valueCode (value : Int32) :
    ValueCode around passes inLoop (liftM (Emit.constant value)) (pure value) := by
  refine .ofMakes (.mono (.toTemp (fun dest => .constant dest value) fun _ => rfl) ?_) fun _ ready => isValue_toTemp ready _
  rintro course state register later ⟨fresh, adds⟩ machine store place related
  exact fresh.done adds place related rfl

theorem code_withVariable (state : State) (symbol : SymbolId) (name : String) :
    (state.withVariable symbol name).function.code = state.function.code := by
  rw [State.withVariable, variableRegister_eq]
  cases state.function.variableRegs.lookup symbol <;> rfl

theorem Makes.variableRegister (table : Declarations) (symbol : SymbolId) :
    Makes inLoop [] (Gen.variableRegister table symbol) fun (course : Course around passes) state register later =>
      course.final.variableRegs.lookup symbol = some register ∧ Older later register ∧
        later.function.code.size = state.function.code.size where
  later state _ := later_withVariable state _ _
  runs course state owns holds := by
    have lookup := lookup_withVariable state symbol (table.symbol symbol).name
    exact ⟨holds.finished.extends_.kept symbol _ lookup,
      ((later_withVariable state symbol _).ready owns.ready).regular.homes symbol _ lookup,
      congrArg Array.size (code_withVariable state symbol _)⟩

theorem Related.read {final : Ir.Function} {symbol home : Nat} (related : Related final store machine)
    (lookup : final.variableRegs.lookup symbol = some home) {value : Int32}
    (given : store.locals symbol = some value) : machine.read home = value := by
  obtain ⟨register, found, read⟩ := related.holds symbol value given
  obtain rfl : home = register := Option.some.inj (lookup.symm.trans found)
  exact read

theorem runs_variable {symbol : SymbolId} {home : Reg}
    (lookup : course.final.variableRegs.lookup symbol = some home)
    (same : later.function.code.size = state.function.code.size) :
    course.RunsKeeping state (Eval.readVariable symbol) (Delivers home later) := by
  intro machine store place related
  rw [Eval.readVariable]
  cases given : store.locals symbol with
  | none => trivial
  | some value => exact .done related ⟨⟨place.trans same.symm, related.read lookup given⟩, .refl _ _⟩

theorem variable_valueCode (table : Declarations) (symbol : SymbolId) :
    ValueCode around passes inLoop (Gen.variableRegister table symbol) (Eval.readVariable symbol) := by
  refine .ofMakes (.mono (.variableRegister table symbol) ?_) fun state ready => ?_
  · rintro course state register later ⟨lookup, -, same⟩ machine store place related
    exact (runs_variable lookup same machine store place related).mono (fun _ => id) fun _ _ _ _ _ => And.left
  · have regular := ((later_withVariable state symbol (table.symbol symbol).name).ready ready).regular
    exact .inr (regular.homes symbol _ (lookup_withVariable state symbol _))

section Operators

variable {left right operand : Gen Reg} {leftValue rightValue operandValue : Eval μ Int32}

theorem Course.RunsKeeping.pair {left right : Reg}
    (leftRuns : course.RunsKeeping state leftValue (Delivers left middle)) (isValue : IsValue middle left)
    (rightRuns : course.RunsKeeping middle rightValue (Delivers right later)) {next : Int32 → Int32 → Eval μ α}
    (continues : ∀ leftWord rightWord store last, Related course.final store last →
      last.place = later.function.code.size → last.read left = leftWord → last.read right = rightWord →
      course.Follows last (next leftWord rightWord store) result) :
    course.Runs state (do next (← leftValue) (← rightValue)) result := by
  intro machine store place related
  refine (leftRuns machine store place related).bind ?_
  intro leftWord leftStore afterLeft leftRelated _ leftGood
  refine (rightRuns afterLeft leftStore leftGood.1.1 leftRelated).bind ?_
  intro rightWord rightStore afterRight rightRelated _ rightGood
  exact continues leftWord rightWord rightStore afterRight rightRelated rightGood.1.1
    ((rightGood.2.value isValue).trans leftGood.1.2) rightGood.1.2

theorem ValueCode.alu (leftCode : ValueCode around passes inLoop left leftValue)
    (rightCode : ValueCode around passes inLoop right rightValue) {op : AluOp} (integer : op.isInteger = true) :
    ValueCode around passes inLoop (do Emit.alu op (← left) (← right))
      (do Eval.ofOption (op.evaluate? (← leftValue) (← rightValue))) := by
  refine .ofMakes (.mono (.bind leftCode.makes fun left => .bind rightCode.makes fun right =>
    .toTemp (fun dest => .alu op dest left right) fun _ => rfl) ?_) fun state ready => ?_
  · rintro course state register later ⟨left, _, -, ⟨isValue, leftRuns⟩, right, _, -, ⟨-, rightRuns⟩, fresh, adds⟩
    refine leftRuns.pair isValue rightRuns fun leftWord rightWord store last related place leftRead rightRead => ?_
    cases result : op.evaluate? leftWord rightWord with
    | none => trivial
    | some value =>
      refine fresh.done adds place related ?_
      simp only [effect, leftRead, rightRead, around.operate_integer integer, result, Option.map_some]
  · have steps := (leftCode.makes.bind fun _ => rightCode.makes).later state (.none ready)
    exact isValue_toTemp (steps.ready ready) _

theorem ValueCode.unary (operandCode : ValueCode around passes inLoop operand operandValue) (instr : Reg → Reg → Instr)
    (plain : ∀ source dest, placed? (instr dest source) = none) {next : Int32 → Eval μ Int32}
    (computes : ∀ dest source target (machine : MachineState μ) store,
      (∃ word, next (machine.read source) store = .done word store ∧
        effect around target machine (instr dest source) = some (.plain machine (.set dest word))) ∨
      next (machine.read source) store = .wrong) :
    ValueCode around passes inLoop (do let source ← operand; Emit.toTemp fun dest => instr dest source)
      (operandValue >>= next) := by
  refine .ofMakes (.mono (.bind operandCode.makes fun source => .toTemp _ (plain source)) ?_)
    fun state ready => isValue_toTemp ((operandCode.later state ready).ready ready) _
  rintro course state register later ⟨source, computed, -, ⟨-, runs⟩, fresh, adds⟩ machine store place related
  refine (runs machine store place related).bind ?_
  rintro _ afterStore last afterRelated - ⟨⟨lastPlace, rfl⟩, -⟩
  rcases computes register source (labelPlace? course.final.code) last afterStore with ⟨result, value, done⟩ | wrong
  · rw [value]
    exact fresh.done adds lastPlace afterRelated done
  · rw [wrong]
    trivial

theorem ValueCode.minus (operandCode : ValueCode around passes inLoop operand operandValue) :
    ValueCode around passes inLoop (do Emit.alu .subI Reg.zero (← operand)) (do return -(← operandValue)) := by
  refine operandCode.unary (fun dest source => .alu .subI dest Reg.zero source) (fun _ _ => rfl) ?_
  intro dest source target machine store
  refine Or.inl ⟨_, rfl, ?_⟩
  simp [effect, Surroundings.operate, AluOp.isInteger, AluOp.evaluate?]

theorem ValueCode.negation (operandCode : ValueCode around passes inLoop operand operandValue) :
    ValueCode around passes inLoop (do Emit.aluImm .xorI (← operand) 1) (do Reference.negation (← operandValue)) := by
  refine operandCode.unary (fun dest source => .aluImm .xorI dest source 1) (fun _ _ => rfl) ?_
  intro dest source target machine store
  simp only [effect, Surroundings.operate, AluOp.isInteger, AluOp.evaluate?, Reference.negation]
  by_cases zero : machine.read source = 0
  · refine Or.inl ⟨1, ?_, by simp [zero]⟩
    simp [zero]
    rfl
  · by_cases one : machine.read source = 1
    · refine Or.inl ⟨0, ?_, by simp [one]⟩
      simp [one]
      rfl
    · refine Or.inr ?_
      simp [zero, one]
      rfl

end Operators

theorem truth_ne_zero (condition : Bool) : AluOp.truth condition ≠ 0 ↔ condition = true := by
  cases condition <;> simp [AluOp.truth]

theorem evaluate_expected {op inverse : AluOp} (inverts : op.inverse? = some inverse) {left right word : Int32}
    (result : op.evaluate? left right = some word) (expected : Bool) :
    ∃ branch, (if expected then op else op.inverse?.getD op).evaluate? left right = some branch ∧
      (branch ≠ 0 ↔ decide (word ≠ 0) = expected) := by
  cases expected with
  | true => exact ⟨word, result, by simp⟩
  | false =>
    cases op <;> simp only [AluOp.inverse?, reduceCtorEq] at inverts <;>
      simp only [AluOp.evaluate?, Option.some.injEq] at result <;> subst result
    all_goals
      refine ⟨_, rfl, ?_⟩
      simp [truth_ne_zero, Int32.not_lt]

namespace Adds

theorem placed (adds : Adds course state (.label site) later) :
    labelPlace? course.final.code site = some state.function.code.size :=
  labelPlace?_of_unique adds.finished.regular.unique adds.found

theorem run_label (adds : Adds course state (.label site) later) (place : machine.place = state.function.code.size) :
    run around course.final.code 1 machine = some (machine.goto later.function.code.size) := by
  refine run_one (adds.foundAt place) ?_
  simp [effect, Effect.plain, Effect.jump, adds.size, place]

theorem label (adds : Adds course state (.label site) later) (place : machine.place = state.function.code.size)
    (follows : course.Follows (machine.goto later.function.code.size) outcome result) :
    course.Follows machine outcome result :=
  .goto ⟨1, adds.run_label place⟩ follows

theorem reaches (adds : Adds course state (.jump target) later)
    (placed : labelPlace? course.final.code target = some targetPlace)
    (place : machine.place = state.function.code.size) :
    Reaches around course.final.code machine (machine.goto targetPlace) :=
  .goto (adds.foundAt place) (by simp [effect, placed])

theorem jump (adds : Adds course state (.jump target) later)
    (placed : labelPlace? course.final.code target = some targetPlace)
    (place : machine.place = state.function.code.size)
    (follows : course.Follows (machine.goto targetPlace) outcome result) : course.Follows machine outcome result :=
  .goto (adds.reaches placed place) follows

end Adds

def Branches (place : Nat) (expected : Bool) (later : State) (word : Int32) (last : MachineState μ) : Prop :=
  last.place = if decide (word ≠ 0) = expected then place else later.function.code.size

structure BranchCode (around : Surroundings μ) (passes : Nat) (inLoop : Bool) (code : Label → Bool → Gen Unit)
    (value : Eval μ Int32) : Prop where
  makes : ∀ target expected, Makes inLoop [] (code target expected) fun (course : Course around passes) state _ later =>
    ∀ place, labelPlace? course.final.code target = some place → course.Runs state value (Branches place expected later)

theorem Adds.branchOn {op inverse : AluOp} (inverts : op.inverse? = some inverse) {left right : Reg} {expected : Bool}
    (adds : Adds course state (.branch (if expected then op else op.inverse?.getD op) left right target) later)
    (placed : labelPlace? course.final.code target = some targetPlace)
    (place : machine.place = state.function.code.size) {word : Int32}
    (compared : op.evaluate? (machine.read left) (machine.read right) = some word)
    (follows : course.Follows (machine.goto (if decide (word ≠ 0) = expected then targetPlace
      else later.function.code.size)) outcome result) : course.Follows machine outcome result := by
  obtain ⟨branch, evaluated, expects⟩ := evaluate_expected inverts compared expected
  refine .goto (.goto (adds.foundAt place) ?_) follows
  simp only [effect, evaluated]
  by_cases taken : decide (word ≠ 0) = expected
  · rw [if_pos taken, if_pos (expects.mpr taken), placed]
    rfl
  · rw [if_neg taken, if_neg (mt expects.mp taken), adds.size, ← place]
    rfl

section Branches

variable {left right operand : Label → Bool → Gen Unit} {value : Gen Reg}
  {leftValue rightValue operandValue : Eval μ Int32}

theorem BranchCode.keeps (code : BranchCode around passes inLoop operand operandValue) (target : Label) (expected : Bool) :
    Makes inLoop [] (operand target expected) fun (course : Course around passes) state _ later =>
      ∀ place, labelPlace? course.final.code target = some place →
        course.RunsKeeping state operandValue (Branches place expected later) where
  later := (code.makes target expected).later
  runs course state owns holds place placed := holds.runsKeeping fun keep kept =>
    (code.makes target expected).runs (course.keeping keep) state owns kept place placed

theorem Makes.branchOn (op : AluOp) (left right : Reg) (target : Label) (expected : Bool) :
    Makes inLoop [] (Codegen.branchOn op left right target expected) fun (course : Course around passes) state _ later =>
      Adds course state (.branch (if expected then op else op.inverse?.getD op) left right target) later :=
  .add (.branch (if expected then op else op.inverse?.getD op) left right target)

theorem ValueCode.asBranch (code : ValueCode around passes inLoop value operandValue) :
    BranchCode around passes inLoop (ExprCode.ofValue value).branch operandValue := by
  refine ⟨fun target expected => .mono (.bind code.makes fun register => .branchOn ..) ?_⟩
  rintro course state _ later ⟨register, _, -, ⟨-, runs⟩, adds⟩ targetPlace placed machine store place related
  refine (runs machine store place related).finish ?_
  intro word afterStore last afterRelated _ good
  have compared : AluOp.neqI.evaluate? (last.read register) (last.read Reg.zero) = some (AluOp.truth (word ≠ 0)) := by
    rw [good.1.2, MachineState.read_zero, AluOp.evaluate?]
  refine adds.branchOn rfl placed good.1.1 compared (.done (afterRelated.goto _) ?_)
  simp [Branches, truth_ne_zero]

theorem ValueCode.compare {left right : Gen Reg} (leftCode : ValueCode around passes inLoop left leftValue)
    (rightCode : ValueCode around passes inLoop right rightValue) {op inverse : AluOp}
    (inverts : op.inverse? = some inverse) :
    BranchCode around passes inLoop (fun target expected => do branchOn op (← left) (← right) target expected)
      (do Eval.ofOption (op.evaluate? (← leftValue) (← rightValue))) := by
  refine ⟨fun target expected => .mono (.bind leftCode.makes fun left => .bind rightCode.makes fun right =>
    .branchOn ..) ?_⟩
  rintro course state _ later ⟨left, _, -, ⟨isValue, leftRuns⟩, right, _, -, ⟨-, rightRuns⟩, adds⟩ targetPlace placed
  refine leftRuns.pair isValue rightRuns fun leftWord rightWord store last related place leftRead rightRead => ?_
  cases result : op.evaluate? leftWord rightWord with
  | none => trivial
  | some word =>
    rw [← leftRead, ← rightRead] at result
    exact adds.branchOn inverts placed place result (.done (related.goto _) rfl)

theorem BranchCode.direct (leftCode : BranchCode around passes inLoop left leftValue)
    (rightCode : BranchCode around passes inLoop right rightValue) (target : Label) (expected : Bool) :
    Makes inLoop [] (do left target expected; right target expected) fun (course : Course around passes) state _ later =>
      ∀ place, labelPlace? course.final.code target = some place →
        course.Runs state (shortCircuit expected leftValue rightValue) (Branches place expected later) := by
  refine .mono (.bind (leftCode.makes target expected) fun _ => rightCode.makes target expected) ?_
  rintro course state _ later ⟨_, middle, -, leftRuns, rightRuns⟩ targetPlace placed machine store place related
  refine (leftRuns targetPlace placed machine store place related).bind ?_
  intro leftWord leftStore afterLeft leftRelated _ leftPlace
  rw [Branches] at leftPlace
  split at leftPlace
  · rename_i decided
    rw [if_pos decided]
    refine .done leftRelated ?_
    rw [Branches, leftPlace]
    simp [truth_ne_zero]
  · rename_i undecided
    rw [if_neg undecided]
    refine (rightRuns targetPlace placed afterLeft leftStore leftPlace leftRelated).bind ?_
    intro rightWord rightStore afterRight rightRelated _ rightPlace
    refine .done rightRelated ?_
    rw [Branches, rightPlace]
    simp [truth_ne_zero]

theorem BranchCode.over (leftCode : BranchCode around passes inLoop left leftValue)
    (rightCode : BranchCode around passes inLoop right rightValue) (target : Label) (decisive : Bool) :
    Makes inLoop []
      (do
        let skip ← Emit.newLabel
        left skip decisive
        right target !decisive
        Emit.add (.label skip))
      fun (course : Course around passes) state _ later => ∀ place, labelPlace? course.final.code target = some place →
        course.Runs state (shortCircuit decisive leftValue rightValue) (Branches place (!decisive) later) := by
  refine .mono (.newLabel [] (fun skip => .bind (leftCode.makes skip decisive) fun _ =>
    .bind (rightCode.makes target !decisive) fun _ => .add (.label skip)) fun _ => .refl _) ?_
  rintro course state _ later ⟨_, _, -, leftRuns, _, _, -, rightRuns, skips⟩ targetPlace placed machine store place
    related
  refine (leftRuns _ skips.placed machine store place related).bind ?_
  intro leftWord leftStore afterLeft leftRelated _ leftPlace
  rw [Branches] at leftPlace
  split at leftPlace
  · rename_i decided
    rw [if_pos decided]
    refine skips.label leftPlace (.done (leftRelated.goto _) ?_)
    rw [Branches, if_neg]
    · rfl
    · simp [truth_ne_zero]
  · rename_i undecided
    rw [if_neg undecided]
    refine (rightRuns targetPlace placed afterLeft leftStore leftPlace leftRelated).bind ?_
    intro rightWord rightStore afterRight rightRelated _ rightPlace
    rw [Branches] at rightPlace
    split at rightPlace
    · rename_i taken
      refine .done rightRelated ?_
      rw [Branches, rightPlace, if_pos]
      simpa [truth_ne_zero] using taken
    · rename_i untaken
      refine skips.label rightPlace (.done (rightRelated.goto _) ?_)
      rw [Branches, if_neg]
      · rfl
      · simpa [truth_ne_zero] using untaken

theorem BranchCode.and {left right : ExprCode} (leftCode : BranchCode around passes inLoop left.branch leftValue)
    (rightCode : BranchCode around passes inLoop right.branch rightValue) :
    BranchCode around passes inLoop (branchAnd left right) (shortCircuit false leftValue rightValue) where
  makes target expected := by
    cases expected with
    | true => exact leftCode.over rightCode target false
    | false => exact leftCode.direct rightCode target false

theorem BranchCode.or {left right : ExprCode} (leftCode : BranchCode around passes inLoop left.branch leftValue)
    (rightCode : BranchCode around passes inLoop right.branch rightValue) :
    BranchCode around passes inLoop (branchOr left right) (shortCircuit true leftValue rightValue) where
  makes target expected := by
    cases expected with
    | true => exact leftCode.direct rightCode target true
    | false => exact leftCode.over rightCode target true

theorem BranchCode.not (code : BranchCode around passes inLoop operand operandValue) :
    BranchCode around passes inLoop (fun target expected => operand target !expected)
      (do negation (← operandValue)) := by
  refine ⟨fun target expected => .mono (code.makes target !expected) ?_⟩
  intro course state _ later runs targetPlace placed machine store place related
  refine (runs targetPlace placed machine store place related).bind ?_
  intro word afterStore last afterRelated kept good
  by_cases zero : word = 0
  · simp only [zero]
    refine .done afterRelated ?_
    rw [Branches, good]
    cases expected <;> simp [zero]
  · by_cases one : word = 1
    · simp only [one]
      refine .done afterRelated ?_
      rw [Branches, good]
      cases expected <;> simp [one]
    · simp only [negation, zero, one]
      trivial

theorem int_branchCode (value : Int32) :
    BranchCode around passes inLoop (intCode value).branch (pure value) := by
  refine ⟨fun target expected => ?_⟩
  simp only [intCode, ExprCode.ofCondition]
  split
  · rename_i taken
    refine .mono (.add (.jump target)) fun course state _ later adds targetPlace placed machine store place related => ?_
    exact adds.jump placed place (.done (related.goto targetPlace) (if_pos taken).symm)
  · rename_i untaken
    refine .mono (.pure ()) ?_
    rintro course state _ _ ⟨-, rfl⟩ targetPlace placed machine store place related
    exact .done related (place.trans (if_neg untaken).symm)

theorem isValue_newScratch {rest : Reg → Gen Reg} {runs : Reg → Course around passes → State → Reg → State → Prop}
    (makes : ∀ result, Makes inLoop [] (rest result) (runs result))
    (returns : ∀ result state, (rest result state).1 = result) (state : State) (ready : Ready state) :
    IsValue ((liftM Emit.newScratch >>= rest : Gen Reg) state).2 ((liftM Emit.newScratch >>= rest : Gen Reg) state).1 := by
  rw [bind_apply, returns]
  refine ((makes _).later _ (.none ((later_withScratch state).ready ready))).isValue (.inr ⟨ready.regular.machine, ?_⟩)
  exact (Nat.lt_succ_self _).trans_eq (Array.size_push _).symm

theorem BranchCode.asValue (code : BranchCode around passes inLoop operand operandValue) :
    ValueCode around passes inLoop (ExprCode.ofBranch operand).value
      (do return AluOp.truth ((← operandValue) ≠ 0)) := by
  have makes (result : Reg) := Makes.newLabel [] (fun skip => .bind (.add (.constant result 0)) fun _ =>
    .bind (code.keeps skip false) fun _ => .bind (.add (.constant result 1)) fun _ =>
    .bind (.add (.label skip)) fun _ => .pure result) fun _ => .refl _
  refine .ofMakes (.mono (.bind .newScratch makes) ?_) (isValue_newScratch makes fun _ _ => rfl)
  rintro course state result _ ⟨_, _, -, ⟨fresh, same⟩, _, _, toCleared, clears, _, _, -, tests, _, _, -, sets, _, _, -,
    skips, rfl, rfl⟩ machine store place related
  refine clears.set fresh.toFree (place.trans same.symm) related rfl fun cleared clearedPlace clearedRelated zero _ => ?_
  refine (tests _ skips.placed cleared store clearedPlace clearedRelated).bind ?_
  rintro word testStore tested testRelated - ⟨testPlace, kept⟩
  rw [Branches] at testPlace
  by_cases holds : word = 0
  · rw [if_pos (by simp [holds])] at testPlace
    refine skips.label testPlace (.done (testRelated.goto _) ⟨rfl, ?_⟩)
    exact (kept result (toCleared.older result fresh.older)).trans (zero.trans (by simp [holds, AluOp.truth]))
  · rw [if_neg (by simpa using holds)] at testPlace
    refine sets.set fresh.toFree testPlace testRelated rfl fun set setPlace setRelated one _ => ?_
    exact skips.label setPlace (.done (setRelated.goto _) ⟨rfl, one.trans (by simp [holds, AluOp.truth])⟩)

theorem conditional_valueCode {condition thenBranch elseBranch : ExprCode}
    {conditionValue thenValue elseValue : Eval μ Int32}
    (conditionCode : BranchCode around passes inLoop condition.branch conditionValue)
    (thenCode : ValueCode around passes inLoop thenBranch.value thenValue)
    (elseCode : ValueCode around passes inLoop elseBranch.value elseValue) :
    ValueCode around passes inLoop (conditionalValue condition thenBranch elseBranch)
      (do if (← conditionValue) ≠ 0 then thenValue else elseValue) := by
  have makes (result : Reg) := Makes.newLabel [] (fun otherwise => .newLabel [otherwise] (fun done =>
    .bind (conditionCode.makes otherwise false) fun _ => .bind thenCode.makes fun chosen =>
    .bind (.add (.move result chosen)) fun _ => .bind (.add (.jump done)) fun _ =>
    .bind (.add (.label otherwise)) fun _ => .bind elseCode.makes fun refused =>
    .bind (.add (.move result refused)) fun _ => .bind (.add (.label done)) fun _ => .pure result)
    fun _ => .swap ..) fun _ => .refl _
  refine .ofMakes (.mono (.bind .newScratch makes) ?_) (isValue_newScratch makes fun _ _ => rfl)
  rintro course state result _ ⟨_, _, -, ⟨fresh, same⟩, _, _, -, tests, afterTest⟩ machine store place related
  obtain ⟨chosen, _, -, ⟨-, thenRuns⟩, _, _, -, moves, _, _, -, jumps, afterThen⟩ := afterTest
  obtain ⟨_, _, -, others, refused, _, -, ⟨-, elseRuns⟩, _, _, -, copies, afterElse⟩ := afterThen
  obtain ⟨_, _, -, ends, rfl, rfl⟩ := afterElse
  refine (tests _ others.placed machine store (place.trans same.symm) related).bind ?_
  intro word testStore tested testRelated _ testPlace
  rw [Branches] at testPlace
  by_cases holds : word = 0
  · rw [if_pos (by simp [holds])] at testPlace
    rw [if_neg (by simp [holds])]
    refine others.label testPlace ((elseRuns _ testStore rfl (testRelated.goto _)).finish ?_)
    rintro elseWord elseStore refused elseRelated - ⟨⟨elsePlace, elseRead⟩, -⟩
    refine copies.set fresh.toFree elsePlace elseRelated rfl fun last lastPlace lastRelated lastRead _ => ?_
    exact ends.label lastPlace (.done (lastRelated.goto _) ⟨rfl, lastRead.trans elseRead⟩)
  · rw [if_neg (by simpa using holds)] at testPlace
    rw [if_pos holds]
    refine (thenRuns tested testStore testPlace testRelated).finish ?_
    rintro thenWord thenStore chosen thenRelated - ⟨⟨thenPlace, thenRead⟩, -⟩
    refine moves.set fresh.toFree thenPlace thenRelated rfl fun last lastPlace lastRelated lastRead _ => ?_
    refine jumps.jump ends.placed lastPlace (ends.label rfl ?_)
    exact .done ((lastRelated.goto _).goto _) ⟨rfl, lastRead.trans thenRead⟩

end Branches

end FplCompiler.Codegen
