import FplCompiler.Proofs.Lowering
import Mathlib.Data.Int.Range

/-!
Loops over ranges. The variable of such a loop is stepped before it is compared and its words wrap, so that a range is
gone through exactly if there is a word beyond its last one; a range up to the largest word has no end.
-/

namespace FplCompiler.Reference

open Codegen (rangeStep)

variable {word last : Int32} {op : AluOp} {goesOn : Prop} {stop : Int}

def rangeValues (op : AluOp) (first last : Int) : List Int :=
  match op with
  | .lteI => Int.range first (last + 1)
  | .ltI => Int.range first last
  | .gtI => (Int.range (last + 1) (first + 1)).reverse
  | .gteI => (Int.range last (first + 1)).reverse
  | _ => []

def StepsWithin (op : AluOp) (last : Int32) : Prop :=
  (op = .lteI → last ≠ Int32.maxValue) ∧ (op = .gteI → last ≠ Int32.minValue)

theorem toInt_next (below : word.toInt < 2147483647) : (word + 1).toInt = word.toInt + 1 := by
  have least := word.le_toInt
  rw [Int32.toInt_add, Int32.toInt_one, Int.bmod_eq_of_le] <;> omega

theorem toInt_previous (above : -2147483648 < word.toInt) : (word + -1).toInt = word.toInt - 1 := by
  have most := word.toInt_lt
  rw [Int32.toInt_add, show (-1 : Int32).toInt = -1 from rfl, Int.bmod_eq_of_le] <;> omega

theorem range_eq_cons {first last : Int} (below : first < last) :
    Int.range first last = first :: Int.range (first + 1) last := by
  obtain ⟨count, same⟩ : ∃ count : Nat, last - (first + 1) = count := ⟨(last - (first + 1)).toNat, by omega⟩
  have more : last - first = (count + 1 : Nat) := by omega
  simp only [Int.range, same, more, Int.toNat_natCast, List.range_succ_eq_map, List.map_cons, List.map_map]
  refine congrArg₂ _ (by simp) (List.map_congr_left fun index _ => ?_)
  simp only [Function.comp_apply, Nat.succ_eq_add_one]
  omega

theorem reverse_range {first last : Int} (above : last ≤ first) :
    (Int.range last (first + 1)).reverse = first :: (Int.range last first).reverse := by
  obtain ⟨count, same⟩ : ∃ count : Nat, first - last = count := ⟨(first - last).toNat, by omega⟩
  have more : first + 1 - last = (count + 1 : Nat) := by omega
  simp only [Int.range, same, more, Int.toNat_natCast, List.range_succ, List.map_append, List.map_cons, List.map_nil,
    List.reverse_append, List.reverse_singleton, List.singleton_append]
  exact congrArg₂ _ (by omega) rfl

theorem ascending_step (reach : stop ≤ 2147483647) [Decidable goesOn] (means : goesOn ↔ word.toInt < stop) :
    Int.range word.toInt stop = if goesOn then word.toInt :: Int.range (word + 1).toInt stop else [] := by
  by_cases below : word.toInt < stop
  · rw [if_pos (means.mpr below), toInt_next (by omega)]
    exact range_eq_cons below
  · rw [if_neg (mt means.mp below)]
    simpa [Int.range] using below

theorem descending_step (reach : -2147483648 < stop) [Decidable goesOn]
    (means : goesOn ↔ stop ≤ word.toInt) : (Int.range stop (word.toInt + 1)).reverse =
      if goesOn then word.toInt :: (Int.range stop ((word + -1).toInt + 1)).reverse else [] := by
  by_cases above : stop ≤ word.toInt
  · rw [if_pos (means.mpr above), toInt_previous (by omega), Int.sub_add_cancel]
    exact reverse_range above
  · rw [if_neg (mt means.mp above)]
    simpa [Int.range, Int.add_one_le_iff] using above

theorem rangeValues_step (isRange : isRangeOperation op = true) (word last : Int32) (within : StepsWithin op last) :
    ∃ goesOn : Bool, op.evaluate? word last = some (AluOp.truth goesOn) ∧
      rangeValues op word.toInt last.toInt =
        if goesOn then word.toInt :: rangeValues op (word + rangeStep op).toInt last.toInt else [] := by
  have least := last.le_toInt
  have most := last.toInt_lt
  have notMost : last ≠ Int32.maxValue → last.toInt ≠ 2147483647 := mt fun same => Int32.toInt_inj.mp same
  have notLeast : last ≠ Int32.minValue → last.toInt ≠ -2147483648 := mt fun same => Int32.toInt_inj.mp same
  cases op <;> cases isRange
  case ltI => exact ⟨_, rfl, ascending_step (by omega) (decide_eq_true_iff.trans Int32.lt_iff_toInt_lt)⟩
  case lteI =>
    have inside := notMost (within.1 rfl)
    refine ⟨_, rfl, ascending_step (by omega) ?_⟩
    rw [decide_eq_true_iff, Int32.le_iff_toInt_le, Int.lt_add_one_iff]
  case gtI =>
    refine ⟨_, rfl, descending_step (by omega) ?_⟩
    rw [decide_eq_true_iff, Int32.lt_iff_toInt_lt, Int.add_one_le_iff]
  case gteI =>
    have inside := notLeast (within.2 rfl)
    exact ⟨_, rfl, descending_step (by omega) (decide_eq_true_iff.trans Int32.le_iff_toInt_le)⟩

namespace Eval

variable {μ : Type} {symbol : SymbolId} {body : Eval μ Unit} {store : Store μ}

def visitOne (symbol : SymbolId) (element : Eval μ Int32) (body : Eval μ Unit) : Eval μ Bool := do
  setVariable symbol (some (← element))
  pass body

/-- One pass after the other. A body that leaves the loop ends it. -/
def visit (symbol : SymbolId) (element : Int → Eval μ Int32) (body : Eval μ Unit) : List Int → Eval μ Unit
  | [] => pure ()
  | item :: rest => do
    if ← visitOne symbol (element item) body then visit symbol element body rest else pure ()

def Spares (symbol : SymbolId) (body : Eval μ Unit) : Prop :=
  ∀ store last, pass body store = .done true last → last.locals symbol = store.locals symbol

def Leaves {α : Type} (symbol : SymbolId) (step : Eval μ α) : Prop :=
  ∀ store, match step store with
    | .done _ last | .jump _ last | .timeout last => last.locals symbol = store.locals symbol
    | .wrong => True

theorem Leaves.bind {α β : Type} {first : Eval μ α} {next : α → Eval μ β} (leaves : first.Leaves symbol)
    (nextLeaves : ∀ value, (next value).Leaves symbol) : (first >>= next).Leaves symbol := by
  intro store
  have middle := leaves store
  rw [bind_apply]
  cases outcome : first store with
  | done value between =>
    rw [outcome] at middle
    have rest := nextLeaves value between
    rw [middle] at rest
    exact rest
  | _ => rw [outcome] at middle; exact middle

theorem leaves_readVariable (symbol other : SymbolId) : (readVariable other : Eval μ Int32).Leaves symbol := by
  intro store
  rw [readVariable]
  cases store.locals other with
  | none => trivial
  | some value => rfl

theorem leaves_setVariable {other : SymbolId} (different : symbol ≠ other) (value : Option Int32) :
    (setVariable other value : Eval μ Unit).Leaves symbol :=
  fun _ => if_neg different

theorem Leaves.spares (leaves : body.Leaves symbol) : body.Spares symbol := by
  intro store last passed
  have kept := leaves store
  rw [pass] at passed
  split at passed <;> simp_all

theorem readVariable_of {word : Int32} (holds : store.locals symbol = some word) :
    readVariable symbol store = .done word store := by
  rw [readVariable, holds]
  rfl

theorem countedLoop_step {word : Int32} {goesOn : Bool} (holds : store.locals symbol = some word)
    (compared : op.evaluate? word last = some (AluOp.truth goesOn)) (passes : Nat) :
    countedLoop symbol last op body (passes + 1) store =
      if goesOn then (do
        if ← pass body then
          setVariable symbol (some ((← readVariable symbol) + rangeStep op))
          countedLoop symbol last op body passes
        else pure () : Eval μ Unit) store
      else .done () store := by
  rw [countedLoop, bind_apply, readVariable_of holds]
  change ((ofOption (op.evaluate? word last) : Eval μ Int32) >>= _) store = _
  rw [compared]
  cases goesOn <;> rfl

theorem countedLoop_visits
    (isRange : isRangeOperation op = true) (within : StepsWithin op last) (spares : body.Spares symbol)
    {passes : Nat} {first : Int32} (enough : (rangeValues op first.toInt last.toInt).length < passes) :
    (do countedLoop symbol last op body passes; setVariable symbol none : Eval μ Unit) (store.set symbol (some first)) =
      (do visit symbol (fun value => pure (.ofInt value)) body (rangeValues op first.toInt last.toInt)
          setVariable symbol none : Eval μ Unit) store := by
  induction passes generalizing first store with
  | zero => cases enough
  | succ passes ih =>
    obtain ⟨goesOn, compared, values⟩ := rangeValues_step isRange first last within
    have holds : (store.set symbol (some first)).locals symbol = some first := if_pos rfl
    rw [bind_apply, countedLoop_step holds compared]
    rw [values] at enough ⊢
    cases goesOn with
    | false => exact congrArg (Outcome.done ()) (store.set_set symbol _ _)
    | true =>
      have first' : (setVariable symbol (some (Int32.ofInt first.toInt)) : Eval μ Unit) store =
        .done () (store.set symbol (some first)) := by rw [Int32.ofInt_toInt]; rfl
      simp only [if_true, visit, visitOne, pure_bind, bind_apply, first', Outcome.andThen]
      cases passed : pass body (store.set symbol (some first)) with
      | done again between =>
        cases again with
        | false => rfl
        | true =>
          have kept := spares _ _ passed
          simp only [if_true, bind_apply, readVariable_of (kept.trans holds), Outcome.andThen]
          exact ih (by simpa using enough)
      | jump kind between => rfl
      | wrong => rfl
      | timeout between => rfl

theorem countedLoop_largest (spares : body.Spares symbol)
    (goesOn : ∀ store, ∃ last, pass body store = .done true last) (passes : Nat) (word : Int32) (store : Store μ) :
    ∃ last, countedLoop symbol Int32.maxValue .lteI body passes (store.set symbol (some word)) = .timeout last := by
  induction passes generalizing word store with
  | zero => exact ⟨_, rfl⟩
  | succ passes ih =>
    have holds : (store.set symbol (some word)).locals symbol = some word := if_pos rfl
    have compared : AluOp.lteI.evaluate? word Int32.maxValue = some (AluOp.truth true) :=
      congrArg (fun holds => some (AluOp.truth holds)) (decide_eq_true (Int32.le_maxValue word))
    obtain ⟨between, passed⟩ := goesOn (store.set symbol (some word))
    have kept := (spares _ _ passed).trans holds
    rw [countedLoop_step holds compared]
    simp only [if_true, bind_apply, passed, readVariable_of kept, Outcome.andThen]
    exact ih _ _

theorem bind_congr_at {α β : Type} {first : Eval μ α} {next other : α → Eval μ β}
    (same : ∀ value last, first store = .done value last → next value last = other value last) :
    (first >>= next) store = (first >>= other) store := by
  simp only [bind_apply]
  cases outcome : first store with
  | done value last => exact same value last outcome
  | jump kind last => rfl
  | wrong => rfl
  | timeout last => rfl

end Eval

theorem length_rangeValues (within : StepsWithin op last) (first : Int32) :
    (rangeValues op first.toInt last.toInt).length < 4294967296 := by
  have := first.le_toInt
  have := first.toInt_lt
  have := last.le_toInt
  have := last.toInt_lt
  have notMost : last ≠ Int32.maxValue → last.toInt ≠ 2147483647 := mt fun same => Int32.toInt_inj.mp same
  have notLeast : last ≠ Int32.minValue → last.toInt ≠ -2147483648 := mt fun same => Int32.toInt_inj.mp same
  cases op with
  | lteI =>
    have inside := notMost (within.1 rfl)
    simp only [rangeValues, Int.range, List.length_map, List.length_range]
    omega
  | gteI =>
    have inside := notLeast (within.2 rfl)
    simp only [rangeValues, Int.range, List.length_reverse, List.length_map, List.length_range]
    omega
  | ltI | gtI =>
    simp only [rangeValues, Int.range, List.length_reverse, List.length_map, List.length_range]
    omega
  | _ => exact Nat.zero_lt_succ _

end FplCompiler.Reference

namespace FplCompiler.Codegen

open Ir Reference

/-- The code of a loop over a range runs its body once for each integer of the range, in order, and then ends, if one
step beyond the end of the range there is still a word. -/
theorem forRange_visits_range {μ : Type} {around : Surroundings μ} {passes : Nat} {inLoop : Bool}
    (table : Declarations) (symbol : SymbolId) {start stop : ExprCode} {startValue stopValue : Eval μ Int32}
    {op : AluOp} {body : Gen Unit} {bodyEffect : Eval μ Unit} (isRange : isRangeOperation op = true)
    (startCode : ValueCode around passes inLoop start.value startValue)
    (stopCode : ValueCode around passes inLoop stop.value stopValue)
    (bodyCode : StmtCode around passes true body bodyEffect)
    (within : ∀ store limit last, stopValue store = .done limit last → StepsWithin op limit)
    (spares : bodyEffect.Spares symbol) (enough : 4294967296 ≤ passes) :
    StmtCode around passes inLoop (forRange table symbol start stop op body)
      (do
        let first ← startValue
        Eval.setVariable symbol none
        let limit ← stopValue
        Eval.visit symbol (fun value => pure (.ofInt value)) bodyEffect (rangeValues op first.toInt limit.toInt)
        Eval.setVariable symbol none) := by
  have code := (forRange_stmtCode table symbol op startCode stopCode bodyCode).seq (unset_stmtCode symbol)
  rw [bind_pure_unit] at code
  simp only [bind_assoc] at code
  refine cast (congrArg (StmtCode around passes inLoop _) (funext fun store => ?_)) code
  refine Eval.bind_congr_at fun first _ _ => Eval.bind_congr_at fun _ _ _ => ?_
  refine Eval.bind_congr_at fun limit _ stopped => ?_
  have few := length_rangeValues (within _ _ _ stopped) first
  exact Eval.countedLoop_visits isRange (within _ _ _ stopped) spares (few.trans_le enough)

def addsUp : Typed.Stmt :=
  .assign .add (integer (.localVar 0)) (integer (.localVar 1))

theorem addsUp_spares {μ : Type} (around : Surroundings μ) (passes : Nat) {symbol : SymbolId} (different : symbol ≠ 0) :
    (evalStmt around singleParameter passes addsUp).Spares symbol := by
  have effect : evalStmt around singleParameter passes addsUp = (do
      let sum ← Eval.readVariable 0
      let word ← Eval.readVariable 1
      Eval.setVariable 0 (some (sum + word)) : Eval μ Unit) := by
    simp [addsUp, integer, evalStmt, stored, evalExpr, evalShape, Typed.AssignOp.alu, AluOp.evaluate?, Eval.ofOption]
  rw [effect]
  refine Eval.Leaves.spares (.bind (Eval.leaves_readVariable _ 0) fun sum => ?_)
  exact .bind (Eval.leaves_readVariable _ 1) fun word => Eval.leaves_setVariable different _

/-- The numbers from the largest word down to the one three below. -/
theorem forRange_visits_range_largest :
    isRangeOperation .gteI = true ∧ StepsWithin .gteI 2147483644 ∧
      (evalStmt Surroundings.none singleParameter 4294967296 addsUp).Spares 1 ∧
      StmtCode Surroundings.none 4294967296 false
        (forRange singleParameter 1 (exprCode singleParameter (integer (.int 2147483647)))
          (exprCode singleParameter (integer (.int 2147483644))) .gteI (stmtCode singleParameter addsUp))
        (do
          Eval.setVariable 1 none
          Eval.visit 1 (fun value => pure (.ofInt value))
            (evalStmt Surroundings.none singleParameter 4294967296 addsUp)
            [2147483647, 2147483646, 2147483645, 2147483644]
          Eval.setVariable 1 none) := by
  have within : StepsWithin .gteI 2147483644 := ⟨by simp, fun _ => by decide⟩
  have spares := addsUp_spares Surroundings.none 4294967296 (show 1 ≠ 0 by decide)
  refine ⟨rfl, within, spares, ?_⟩
  have values : rangeValues .gteI 2147483647 2147483644 = [2147483647, 2147483646, 2147483645, 2147483644] := by decide
  have numbers (value : Int32) : ValueCode Surroundings.none 4294967296 false
      (exprCode singleParameter (integer (.int value))).value (pure value) :=
    (exprCode_codeFor singleParameter (integer (.int value)) rfl).value
  rw [← values]
  refine forRange_visits_range singleParameter 1 rfl (numbers _) (numbers _)
    (stmtCode_stmtCode singleParameter true addsUp rfl) ?_ spares (Nat.le_refl _)
  intro store limit last stopped
  obtain rfl : limit = 2147483644 := by cases stopped; rfl
  exact within

def throughLargest : List Typed.Stmt :=
  [.forLoop 1 (integer (.range (integer (.int 2147483647)) (integer (.int 2147483647)) .lteI)) []]

/-- A range of one integer can have no end: the loop still runs after any number of steps. -/
theorem throughLargest_never_ends :
    rangeValues .lteI 2147483647 2147483647 = [2147483647] ∧
    ∃ function : Ir.Function,
      (stmtCode singleParameter (.functionBody 0 throughLargest) ⟨default, default, none, []⟩).2.program.functions =
        [function] ∧
      ∀ steps, ∃ last, run Surroundings.none function.code steps (.entry (fun _ => 0) ()) = some last := by
  obtain ⟨function, place, added, -, -, follows⟩ := functionCode_follows singleParameter 0 throughLargest rfl (by decide)
    ⟨default, default, none, []⟩
  refine ⟨by decide, function, by rw [stmtCode]; exact added, fun steps => ?_⟩
  have spares : (pure () : Eval Unit Unit).Spares 1 := Eval.Leaves.spares fun _ => rfl
  have outcome := follows Surroundings.none steps (fun _ => 0) ()
  simp only [throughLargest, integer, evalBlock, evalStmt, evalExpr, evalShape, pure_bind, Eval.bind_apply,
    Eval.setVariable, Outcome.andThen, Store.set_set] at outcome
  obtain ⟨last, ends⟩ := Eval.countedLoop_largest spares (fun store => ⟨store, rfl⟩) steps 2147483647
    (Store.receive ⟨fun _ => none, (), []⟩ _)
  rw [show (2147483647 : Int32) = Int32.maxValue from rfl] at outcome ends
  rw [ends] at outcome
  obtain ⟨more, reached, enough, ran, -⟩ := outcome
  obtain ⟨rest, rfl⟩ := Nat.exists_eq_add_of_le enough
  rw [run_add] at ran
  obtain ⟨middle, found, -⟩ := Option.bind_eq_some_iff.mp ran
  exact ⟨middle, found⟩

end FplCompiler.Codegen
