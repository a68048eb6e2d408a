import FplCompiler.Proofs.StatementCode

/-!
The code of loops follows their evaluation. One pass through the body ends where the next one is prepared, or behind the
loop; a loop is followed pass by pass, each of which takes at least one step.
-/

namespace FplCompiler.Codegen

open Ir Reference

variable {μ : Type} {around : Surroundings μ} {passes : Nat} {inLoop : Bool} {course : Course around passes}
  {bodyRuns restRuns : Course around passes → State → Unit → State → Prop} {body rest : Gen Unit} {others : List Label}

def endPass (state after : State) : State :=
  match after.nextPass? with
  | some next => (after.withLoop state.loop).add (.label next)
  | none => after.withLoop state.loop

section Passes

variable {state after later : State} {labels : LoopLabels} {machine : MachineState μ} {store : Store μ} {label : Label}

theorem ready_withLoop (ready : Ready state)
    (reserved : ∀ label, labels.continueLabel = some label → Reserved label state) :
    Ready (state.withLoop (some labels)) :=
  ⟨ready.regular, fun label next => (reserved label next).1⟩

theorem reserved_body (inner : Later [] (state.withLoop (some labels)) after) {label : Nat}
    (isOpen : IsOpen state.function label) (other : labels.continueLabel ≠ some label) : Reserved label after :=
  inner.reserved label (by simp) ⟨isOpen, other⟩

theorem later_endPass (ready : Ready state) (inner : Later [] (state.withLoop (some labels)) after)
    (reserved : ∀ label, labels.continueLabel = some label → Reserved label state) :
    Later labels.continueLabel.toList state (endPass state after) := by
  have afterReady := inner.ready (ready_withLoop ready reserved)
  have outer : ∀ label, state.nextPass? = some label → Reserved label after := by
    intro label next
    refine reserved_body inner (ready.nextPass label next) ?_
    intro same
    exact (reserved label same).2 next
  have others : ∀ label : Nat, label ∉ labels.continueLabel.toList → Reserved label state → Reserved label after := by
    intro label notOwn isReserved
    exact reserved_body inner isReserved.1 (by simpa using notOwn)
  have restored : Later labels.continueLabel.toList state (after.withLoop state.loop) := by
    constructor
    case ready => exact fun _ => ⟨afterReady.regular, fun label next => (outer label next).1⟩
    case extends_ => exact inner.extends_
    case reserved => exact fun label notOwn isReserved => ⟨(others label notOwn isReserved).1, isReserved.2⟩
    case functions => exact inner.functions
    case noLoop => exact id
    case loop => exact fun labels given => ⟨labels, given, rfl, fun _ => id⟩
  rw [endPass]
  cases next : after.nextPass? with
  | none => exact restored
  | some label =>
    have nextReserved : Reserved label (after.withLoop state.loop) := by
      refine ⟨afterReady.nextPass label next, ?_⟩
      intro same
      exact (outer label same).2 next
    have placed := Later.addLabel nextReserved
    constructor
    case ready => exact placed.ready ∘ restored.ready
    case extends_ => exact restored.extends_.trans placed.extends_
    case reserved =>
      intro other notOwn isReserved
      refine placed.reserved other ?_ (restored.reserved other notOwn isReserved)
      intro same
      obtain rfl : other = label := by simpa using same
      exact (others other notOwn isReserved).2 next
    case functions => exact inner.functions
    case noLoop => exact id
    case loop => exact fun labels given => ⟨labels, given, rfl, fun _ => id⟩

theorem extends_endPass (state after : State) : Extends after.function (endPass state after).function := by
  rw [endPass]
  cases after.nextPass? with
  | none => exact .refl _
  | some next =>
    refine ⟨?_, Nat.le_refl _, Nat.le_refl _, fun _ _ given => given, fun _ _ given _ => given, rfl⟩
    simp [State.add, State.withLoop]

/-- One pass through a loop: the body, and the label behind it if there is one for the next pass. -/
def passCode (labels : LoopLabels) (body : Gen Unit) : Gen Unit := do
  match ← Gen.inLoop labels body with
  | some ⟨_, some next⟩ => Emit.add (.label next)
  | _ => pure ()

theorem placeNext_apply (state after : State) (rest : Gen Unit) :
    (match after.loop with
      | some ⟨_, some next⟩ => do
        Emit.add (.label next)
        rest
      | _ => rest : Gen Unit) (after.withLoop state.loop) = rest (endPass state after) := by
  cases given : after.loop with
  | none => simp [endPass, State.nextPass?, given]
  | some labels =>
    obtain ⟨breakLabel, continueLabel⟩ := labels
    cases continueLabel <;> simp [endPass, State.nextPass?, given]

theorem passCode_apply (labels : LoopLabels) (body : Gen Unit) (state : State) :
    passCode labels body state = ((), endPass state (body (state.withLoop (some labels))).2) := by
  rw [passCode, bind_apply]
  exact placeNext_apply state _ (pure ())

def Course.leaving (course : Course around passes) (exits : Exits) : Course around passes :=
  { course with exits := exits }

/-- The body runs with exits of its own. From the end of a pass the run goes on behind its code, or where the loop is
left. -/
structure PassRuns (labels : LoopLabels) (bodyRuns : Course around passes → State → Unit → State → Prop)
    (course : Course around passes) (state : State) (_ : Unit) (later : State) : Prop where
  passes : ∀ donePlace, labelPlace? course.final.code labels.breakLabel = some donePlace →
    ∃ exits middle, bodyRuns (course.leaving exits) (state.withLoop (some labels)) () middle ∧
      ∀ machine (effect : Eval μ Unit) store, (course.leaving exits).Follows machine (effect store) (Ends middle) →
        course.Follows machine (Eval.pass effect store) fun goesOn last =>
          last.place = if goesOn then later.function.code.size else donePlace
  enters : ∀ next, labels.continueLabel = some next → ∃ place, labelPlace? course.final.code next = some place ∧
    ∀ machine : MachineState μ, machine.place = place →
      Reaches around course.final.code machine (machine.goto later.function.code.size)

theorem nextPass_body (inner : Later [] (state.withLoop (some labels)) after)
    (known : labels.continueLabel = some label) : after.nextPass? = some label := by
  obtain ⟨found, given, _, same⟩ := inner.loop labels rfl
  rw [State.nextPass?, given]
  exact same label known

theorem Makes.pass (makes : Makes true [] body bodyRuns) (labels : LoopLabels) :
    Makes inLoop labels.continueLabel.toList (passCode labels body) (PassRuns labels bodyRuns) := by
  have reserved (state : State) (owns : Owns labels.continueLabel.toList state) (label : Label)
      (same : labels.continueLabel = some label) : Reserved label state := owns.reserved label (by simp [same])
  have inner (state : State) (owns : Owns labels.continueLabel.toList state) : Owns [] (state.withLoop (some labels)) :=
    .none (ready_withLoop owns.ready (reserved state owns))
  constructor
  case later =>
    intro state owns
    rw [passCode_apply]
    exact later_endPass owns.ready (makes.later _ (inner state owns)) (reserved state owns)
  case runs =>
    intro course state owns holds
    have steps := makes.later _ (inner state owns)
    have runs := fun course => makes.runs course _ (inner state owns)
    rw [passCode_apply] at holds ⊢
    generalize (body (state.withLoop (some labels))).2 = after at steps holds runs
    have places (next : Label) (isNext : after.nextPass? = some next) :
        Adds course after (.label next) (endPass state after) := by
      have kept : course.Holds false after (endPass state after) :=
        ⟨nofun, holds.finished, fun register keep => steps.older register (holds.older register keep)⟩
      exact kept.adds (after.withLoop state.loop) (by rw [endPass, isNext]) rfl
    refine ⟨fun donePlace donePlaced => ?_, fun next isNext => ?_⟩
    · let exits : Exits := ⟨donePlace, after.function.code.size, course.exits.leaveFunction⟩
      have finished : Finished course.final exits after := by
        refine ⟨holds.finished.regular, (extends_endPass state after).trans holds.finished.extends_,
          holds.finished.leaveFunction, ?_, fun next isNext => (places next isNext).placed⟩
        intro others given
        obtain ⟨found, foundGiven, sameBreak, _⟩ := steps.loop labels rfl
        obtain rfl : found = others := Option.some.inj (foundGiven.symm.trans given)
        rwa [sameBreak]
      refine ⟨exits, after, runs (course.leaving exits) ⟨fun _ => rfl, finished, holds.older⟩, ?_⟩
      intro machine effect store follows
      have goesOn (last : MachineState μ) (store : Store μ) (place : last.place = after.function.code.size)
          (related : Related course.final store last) : course.Follows last (.done true store) fun goesOn last =>
            last.place = if goesOn then (endPass state after).function.code.size else donePlace := by
        cases isNext : after.nextPass? with
        | none => exact .done related (place.trans (by rw [endPass, isNext]; rfl))
        | some next => exact (places next isNext).label place (.done (related.goto _) rfl)
      rw [Eval.pass]
      cases outcome : effect store with
      | done value store =>
        rw [outcome] at follows
        obtain ⟨last, reaches, related, kept, place⟩ := follows
        exact .after reaches kept (goesOn last store place related)
      | jump kind store =>
        rw [outcome] at follows
        cases kind with
        | leaveLoop => exact follows
        | nextPass =>
          obtain ⟨last, reaches, related, kept, place⟩ := follows
          exact .after reaches kept (goesOn last store place related)
        | leaveFunction value => exact follows
      | wrong => trivial
      | timeout store =>
        rw [outcome] at follows
        exact follows
    · have placed := places next (nextPass_body steps isNext)
      exact ⟨_, placed.placed, fun machine place => ⟨1, placed.run_label place⟩⟩

theorem Makes.passThen (labels : LoopLabels) {code : Gen Unit}
    (makes : Makes true [] body bodyRuns) (goesOn : Makes inLoop others rest restRuns)
    (same : ∀ state, Ready (state.withLoop (some labels)) → code state = rest (passCode labels body state).2) :
    Makes inLoop (labels.continueLabel.toList ++ others) code fun course state result later =>
      ∃ middle, Later labels.continueLabel.toList state middle ∧ PassRuns labels bodyRuns course state () middle ∧
        restRuns course middle result later := by
  refine .congr (.mono (.bind (makes.pass labels) fun _ => goesOn) ?_) fun state owns => same state ?_
  · rintro course state _ later ⟨_, middle, steps, runs, last⟩
    exact ⟨middle, steps, runs, last⟩
  · exact ready_withLoop owns.ready fun label next => owns.reserved label (by simp [next])

/-- A pass whose end has its label before the body is made. -/
theorem Makes.knownPass {done test : Label}
    (makes : Makes true [] body bodyRuns) (goesOn : Makes inLoop others rest restRuns) :
    Makes inLoop (test :: others)
      (do
        let _ ← Gen.inLoop ⟨done, some test⟩ body
        Emit.add (.label test)
        rest)
      fun course state result later => ∃ middle, Later [test] state middle ∧
        PassRuns ⟨done, some test⟩ bodyRuns course state () middle ∧ restRuns course middle result later := by
  refine .passThen ⟨done, some test⟩ makes goesOn fun state ready => ?_
  rw [passCode_apply, endPass, nextPass_body (makes.later _ (.none ready)) rfl]
  rfl

end Passes

section Loops

variable {condition : ExprCode} {conditionValue : Eval μ Int32} {bodyEffect : Eval μ Unit} {machine : MachineState μ}
  {store : Store μ} {symbol againPlace testPlace donePlace : Nat}

/-- How the test and the body of a loop run. The test leads to the body if the condition comes out as expected. -/
structure LoopRuns (course : Course around passes) (conditionValue : Eval μ Int32) (bodyEffect : Eval μ Unit)
    (expected : Bool) (testPlace againPlace donePlace : Nat) : Prop where
  tests : ∀ machine store, machine.place = testPlace → Related course.final store machine →
    course.Follows machine (conditionValue store) fun word last =>
      last.place = if decide (word ≠ 0) = expected then againPlace else donePlace
  runs : ∀ machine store, machine.place = againPlace → Related course.final store machine →
    ∃ started, run around course.final.code 1 machine = some started ∧ Keeps course.keep machine started ∧
      course.Follows started (Eval.pass bodyEffect store) fun goesOn last =>
        last.place = if goesOn then testPlace else donePlace

theorem LoopRuns.whileLoop
    (loop : LoopRuns course conditionValue bodyEffect true testPlace againPlace donePlace)
    (count : Nat) (few : count ≤ passes) (place : machine.place = testPlace)
    (related : Related course.final store machine) :
    Follows around course.final course.exits count course.keep machine
      (Eval.whileLoop conditionValue bodyEffect count store) fun _ later => later.place = donePlace := by
  induction count generalizing machine store with
  | zero => exact ⟨0, machine, Nat.le_refl 0, rfl, related.memory, related.trace⟩
  | succ count ih =>
    refine ((loop.tests machine store place related).weaken few).bind ?_
    intro word testStore tested testRelated _ testPlace
    by_cases holds : word ≠ 0
    · rw [if_pos (decide_eq_true holds)] at testPlace
      rw [if_pos holds]
      obtain ⟨started, taken, kept, follows⟩ := loop.runs tested testStore testPlace testRelated
      refine .afterStep taken kept ((follows.weaken (by omega)).bind ?_)
      intro goesOn passStore passed passRelated _ passPlace
      cases goesOn with
      | true => exact ih (by omega) passPlace passRelated
      | false => exact .done passRelated passPlace
    · rw [if_neg (by simpa using holds)] at testPlace
      rw [if_neg holds]
      exact .done testRelated testPlace

theorem LoopRuns.repeatLoop
    (loop : LoopRuns course conditionValue bodyEffect false testPlace againPlace donePlace)
    (count : Nat) (few : count ≤ passes) (place : machine.place = againPlace)
    (related : Related course.final store machine) :
    Follows around course.final course.exits count course.keep machine
      (Eval.repeatLoop conditionValue bodyEffect count store) fun _ later => later.place = donePlace := by
  induction count generalizing machine store with
  | zero => exact ⟨0, machine, Nat.le_refl 0, rfl, related.memory, related.trace⟩
  | succ count ih =>
    obtain ⟨started, taken, kept, follows⟩ := loop.runs machine store place related
    refine .afterStep taken kept ((follows.weaken (by omega)).bind ?_)
    intro goesOn passStore passed passRelated _ passPlace
    cases goesOn with
    | false => exact .done passRelated passPlace
    | true =>
      refine ((loop.tests passed passStore passPlace passRelated).weaken (by omega)).bind ?_
      intro word testStore tested testRelated _ testPlace
      by_cases holds : word ≠ 0
      · rw [if_neg (by simpa using holds)] at testPlace
        rw [if_pos holds]
        exact .done testRelated testPlace
      · rw [if_pos (by simpa using holds)] at testPlace
        rw [if_neg holds]
        exact ih (by omega) testPlace testRelated

/-- The body stands between the label of a pass and the test, which goes back to it. -/
theorem loopRuns {entry started ended tested : State} {again done test : Label} {expected : Bool}
    (starts : Adds course entry (.label again) started)
    (pass : PassRuns ⟨done, some test⟩
      (fun course state _ later => course.Hides → course.Runs state bodyEffect (Ends later)) course started () ended)
    (tests : ∀ place, labelPlace? course.final.code again = some place →
      course.Runs ended conditionValue (Branches place expected tested))
    (hides : course.Hides) (donePlaced : labelPlace? course.final.code done = some donePlace)
    (leaves : ∀ machine : MachineState μ, machine.place = tested.function.code.size →
      Reaches around course.final.code machine (machine.goto donePlace)) :
    LoopRuns course conditionValue bodyEffect expected ended.function.code.size entry.function.code.size donePlace where
  tests machine store place related := by
    refine (tests _ starts.placed machine store place related).finish ?_
    intro word testStore last testRelated _ lastPlace
    rw [Branches] at lastPlace
    by_cases holds : decide (word ≠ 0) = expected
    · exact .done testRelated (lastPlace.trans ((if_pos holds).trans (if_pos holds).symm))
    · rw [if_neg holds] at lastPlace
      exact .goto (leaves last lastPlace) (.done (testRelated.goto _) (if_neg holds).symm)
  runs machine store place related := by
    obtain ⟨exits, _, runs, passes⟩ := pass.passes _ donePlaced
    exact ⟨_, starts.run_label place, fun _ _ => rfl, passes _ _ _ (runs hides _ store rfl (related.goto _))⟩

theorem while_stmtCode (conditionCode : BranchCode around passes inLoop condition.branch conditionValue)
    (bodyCode : StmtCode around passes true body bodyEffect) :
    StmtCode around passes inLoop (whileLoop condition body) (Eval.whileLoop conditionValue bodyEffect passes) := by
  refine .ofMakes (.mono (.newLabel [] (fun again => .newLabel [again] (fun done => .newLabel [again, done] (fun test =>
    .bind (.add (.jump test)) fun _ => .bind (.add (.label again)) fun _ => .knownPass bodyCode.makes <|
    .bind (conditionCode.makes again true) fun _ => .bind (.add (.jump done)) fun _ => .add (.label done))
    fun _ => .swap ..) fun _ => .swap ..) fun _ => .refl _) ?_)
  rintro course state _ later ⟨_, _, -, jumps, _, _, -, starts, _, -, pass, afterPass⟩ hides machine store place related
  obtain ⟨_, _, -, tests, _, _, -, leaves, ends⟩ := afterPass
  have loop := loopRuns starts pass tests hides ends.placed fun machine here => leaves.reaches ends.placed here
  obtain ⟨testPlace, testPlaced, enters⟩ := pass.enters _ rfl
  refine jumps.jump testPlaced place (.goto (enters _ rfl) ?_)
  refine Follows.finish (loop.whileLoop passes (Nat.le_refl _) rfl ((related.goto _).goto _)) ?_
  exact fun _ lastStore last lastRelated _ lastPlace => ends.label lastPlace (.done (lastRelated.goto _) rfl)

theorem repeat_stmtCode (conditionCode : BranchCode around passes inLoop condition.branch conditionValue)
    (bodyCode : StmtCode around passes true body bodyEffect) :
    StmtCode around passes inLoop (repeatLoop condition body) (Eval.repeatLoop conditionValue bodyEffect passes) := by
  refine .ofMakes (.mono (.newLabel [] (fun again => .newLabel [again] (fun done => .newLabel [again, done] (fun test =>
    .bind (.add (.label again)) fun _ => .knownPass bodyCode.makes <|
    .bind (conditionCode.makes again false) fun _ => .add (.label done))
    fun _ => .swap ..) fun _ => .swap ..) fun _ => .refl _) ?_)
  rintro course state _ later ⟨_, _, -, starts, _, -, pass, _, _, -, tests, ends⟩ hides machine store place related
  have loop := loopRuns starts pass tests hides ends.placed fun machine here => here ▸ .refl machine
  refine Follows.finish (loop.repeatLoop passes (Nat.le_refl _) place related) ?_
  exact fun _ lastStore last lastRelated _ lastPlace => ends.label lastPlace (.done (lastRelated.goto _) rfl)

/-- How the parts of a counted loop lie: the test comes first, then a pass, and then a change of the counter. -/
structure LoopLayout (course : Course around passes) (counter limit : Nat) (op : AluOp) (step : Int32)
    (bodyRuns : Course around passes → State → Unit → State → Prop) (state later : State)
    (testPlace againPlace stepPlace donePlace : Nat) : Prop where
  enters : ∀ machine : MachineState μ, machine.place = state.function.code.size →
    Reaches around course.final.code machine (machine.goto testPlace)
  tests : ∀ machine : MachineState μ, machine.place = testPlace →
    run around course.final.code 1 machine = some (machine.goto (testPlace + 1))
  branches : ∀ (machine : MachineState μ) word, machine.place = testPlace + 1 →
    op.evaluate? (machine.read counter) (machine.read limit) = some word →
    Reaches around course.final.code machine (machine.goto (if word ≠ 0 then againPlace else donePlace))
  pass : ∃ exits started middle, bodyRuns (course.leaving exits) started () middle ∧
    (∀ register, Older state register → Older started register) ∧
    ∀ machine (effect : Eval μ Unit) store, machine.place = againPlace →
      (course.leaving exits).Follows (machine.goto started.function.code.size) (effect store) (Ends middle) →
      course.Follows machine (Eval.pass effect store) fun goesOn last =>
        last.place = if goesOn then stepPlace else donePlace
  counts : ∃ ended temp added counted, Fresh course ended temp added ∧
    Adds course ended (.aluImm .addI temp counter step) added ∧ Adds course added (.move counter temp) counted ∧
    (∀ register, Older state register → Older ended register) ∧ ended.function.code.size = stepPlace ∧
    counted.function.code.size = testPlace
  leaves : ∀ machine : MachineState μ, machine.place = donePlace →
    Reaches around course.final.code machine (machine.goto later.function.code.size)

theorem Makes.loopLayout (makes : Makes true [] body bodyRuns) (counter limit : Nat) (op : AluOp) (step : Int32) :
    Makes inLoop [] (Codegen.countedLoop counter limit op step body) fun course state _ later =>
      ∃ testPlace againPlace stepPlace donePlace,
        LoopLayout course counter limit op step bodyRuns state later testPlace againPlace stepPlace donePlace := by
  refine .mono (.newLabel [] (fun again => .newLabel [again] (fun done => .newLabel [again, done] (fun test =>
    .bind (.add (.jump test)) fun _ => .bind (.add (.label again)) fun _ => .passThen ⟨done, none⟩ makes
    (.bind (.toTemp (fun dest => .aluImm .addI dest counter step) fun _ => rfl) fun temp =>
    .bind (.add (.move counter temp)) fun _ => .bind (.add (.label test)) fun _ =>
    .bind (.add (.branch op counter limit again)) fun _ => .bind (.add (.jump done)) fun _ => .add (.label done))
    fun state _ => ?_)
    fun _ => .swap ..) fun _ => .swap ..) fun _ => .refl _) ?_
  · rw [passCode_apply]
    exact placeNext_apply state _ _
  · rintro course state _ later ⟨_, jumped, toJumped, jumps, _, _, toStarted, starts, _, toEnded, pass, afterPass⟩
    obtain ⟨temp, _, -, ⟨fresh, adds⟩, _, _, -, moves, afterStep⟩ := afterPass
    obtain ⟨_, _, -, tests, _, _, -, branches, _, _, -, leaves, ends⟩ := afterStep
    obtain ⟨exits, middle, runs, passes⟩ := pass.passes _ ends.placed
    have older := (toJumped.trans toStarted).older
    refine ⟨_, jumped.function.code.size, _, _, fun machine place => jumps.reaches tests.placed place,
      fun machine place => tests.size ▸ tests.run_label place, ?_, ⟨exits, _, middle, runs, older, ?_⟩,
      ⟨_, temp, _, _, fresh, adds, moves, fun register given => toEnded.older register (older register given), rfl, rfl⟩,
      fun machine place => ⟨1, ends.run_label place⟩⟩
    · intro machine word place compares
      have found := branches.foundAt (place.trans tests.size.symm)
      by_cases holds : word ≠ 0
      · exact .goto found (by simp [effect, compares, holds, starts.placed])
      · rw [if_neg holds]
        have stays : Reaches around course.final.code machine (machine.goto (machine.place + 1)) :=
          .goto found (by simp [effect, compares, not_not.mp holds]; rfl)
        refine stays.trans (leaves.reaches ends.placed ?_)
        exact (congrArg (· + 1) (place.trans tests.size.symm)).trans branches.size.symm
    · exact fun machine effect store place follows => starts.label place (passes _ effect store follows)

/-- All registers in use but those of variables may be kept. -/
theorem Makes.keepHidden {α : Type} {own : List Label} {step : Gen α}
    {runs : Course around passes → State → α → State → Prop} (makes : Makes inLoop own step runs) :
    Makes inLoop own step fun course state value later => (∀ register, course.keep register → Older state register) ∧
      runs (course.keeping (Hidden course.final state)) state value later where
  later := makes.later
  runs course state owns holds := ⟨holds.older, makes.runs (course.keeping (Hidden course.final state)) state owns
    ⟨holds.inside, holds.finished, fun _ => And.left⟩⟩

section Range

variable {counter limit stepPlace : Nat} {op : AluOp} {state later : State} {limitWord : Int32}
  (layout : LoopLayout course counter limit op (rangeStep op)
    (fun course state _ later => course.Hides → course.Runs state bodyEffect (Ends later)) state later testPlace
    againPlace stepPlace donePlace)
  (hides : course.Hides) (lookup : course.final.variableRegs.lookup symbol = some counter)

include layout hides lookup

theorem LoopLayout.count (place : machine.place = stepPlace) (related : Related course.final store machine) :
    course.Follows machine
      ((do Eval.setVariable symbol (some ((← Eval.readVariable symbol) + rangeStep op)) : Eval μ Unit) store)
      fun _ last => last.place = testPlace := by
  obtain ⟨ended, temp, added, counted, fresh, adds, moves, -, rfl, rfl⟩ := layout.counts
  rw [Eval.bind_apply, Eval.readVariable]
  cases given : store.locals symbol with
  | none => trivial
  | some value =>
    refine adds.set fresh.toFree place related ?_ fun last lastPlace lastRelated read _ =>
      moves.write hides lookup lastPlace lastRelated read
    simp [effect, Surroundings.operate, AluOp.isInteger, AluOp.evaluate?, related.read lookup given]

theorem LoopLayout.countedLoop (kept : course.keep limit) (count : Nat) (few : count ≤ passes)
    (place : machine.place = testPlace) (related : Related course.final store machine)
    (limitRead : machine.read limit = limitWord) :
    Follows around course.final course.exits count course.keep machine
      (Eval.countedLoop symbol limitWord op bodyEffect count store) fun _ last => last.place = donePlace := by
  induction count generalizing machine store with
  | zero => exact ⟨0, machine, Nat.le_refl 0, rfl, related.memory, related.trace⟩
  | succ count ih =>
    refine .afterStep (layout.tests machine place) (fun _ _ => rfl) ?_
    rw [Eval.countedLoop, Eval.bind_apply, Eval.readVariable]
    cases given : store.locals symbol with
    | none => trivial
    | some value =>
      change Follows _ _ _ _ _ _ (((Eval.ofOption (op.evaluate? value limitWord) : Eval μ Int32) >>= _) store) _
      cases evaluated : op.evaluate? value limitWord with
      | none => trivial
      | some word =>
        rw [← related.read lookup given, ← limitRead] at evaluated
        refine .goto (layout.branches _ word rfl evaluated) ?_
        change Follows _ _ _ _ _ _ ((if word ≠ 0 then _ else _ : Eval μ Unit) store) _
        by_cases holds : word ≠ 0
        · rw [if_pos holds, if_pos holds]
          obtain ⟨exits, started, _, runs, -, passes⟩ := layout.pass
          refine Follows.bind (.weaken (passes _ bodyEffect store rfl (runs hides _ store rfl
            (((related.goto _).goto _).goto _))) (by omega)) ?_
          intro goesOn passStore passed passRelated passKept passPlace
          cases goesOn with
          | false => exact .done passRelated passPlace
          | true =>
            rw [← bind_assoc]
            refine ((layout.count hides lookup passPlace passRelated).weaken (by omega)).bind ?_
            intro _ stepStore stepped stepRelated stepKept stepPlace
            refine ih (by omega) stepPlace stepRelated ?_
            rw [stepKept limit kept, passKept limit kept]
            exact limitRead
        · rw [if_neg holds, if_neg holds]
          exact .done ((related.goto _).goto _) rfl

end Range

theorem forRange_stmtCode (table : Declarations) (symbol : SymbolId) (op : AluOp) {start stop : ExprCode}
    {startValue stopValue : Eval μ Int32}
    (startCode : ValueCode around passes inLoop start.value startValue)
    (stopCode : ValueCode around passes inLoop stop.value stopValue)
    (bodyCode : StmtCode around passes true body bodyEffect) :
    StmtCode around passes inLoop (forRange table symbol start stop op body)
      (do
        let first ← startValue
        Eval.setVariable symbol none
        let limit ← stopValue
        Eval.setVariable symbol (some first)
        Eval.countedLoop symbol limit op bodyEffect passes) := by
  refine .ofMakes (.mono (.bind (.variableRegister table symbol) fun counter => .bind startCode.makes fun source =>
    .bind (.add (.move counter source)) fun _ => .bind stopCode.makes fun stop =>
    .bind (.toTemp (fun dest => .move dest stop) fun _ => rfl) fun limit =>
    .keepHidden (bodyCode.makes.loopLayout counter limit op (rangeStep op))) ?_)
  rintro course state _ later ⟨counter, _, -, ⟨lookup, older, same⟩, afterCounter⟩ hides machine store place related
  obtain ⟨source, _, toStarted, ⟨-, startRuns⟩, _, _, toMoved, moves, afterStart⟩ := afterCounter
  obtain ⟨stop, _, toBounded, ⟨-, stopRuns⟩, limit, _, -, ⟨fresh, copies⟩, looping⟩ := afterStart
  obtain ⟨kept, _, _, _, _, layout⟩ := looping
  refine (startRuns machine store (place.trans same.symm) related).bind ?_
  rintro first startStore started startRelated - ⟨⟨startPlace, startRead⟩, -⟩
  refine moves.writeUnset hides lookup startPlace (startRelated.unset symbol) (by simp [Store.set]) ?_
  intro moved movedPlace movedRelated movedRead
  refine (stopRuns moved _ movedPlace movedRelated).bind ?_
  rintro limitWord stopStore stopped stopRelated - ⟨⟨stopPlace, stopRead⟩, stopKept⟩
  refine copies.set fresh.toFree stopPlace stopRelated rfl fun ready readyPlace readyRelated limitRead others => ?_
  have movedOlder := (toStarted.trans toMoved).older counter older
  have counterRead : ready.read counter = first := by
    rw [others counter, stopKept counter movedOlder, movedRead, startRead]
    rintro rfl
    exact fresh.newer (toBounded.older counter movedOlder)
  refine .goto (layout.enters ready readyPlace) ?_
  refine Follows.finish (.keepLess (layout.countedLoop (fun _ => And.right) lookup ⟨fresh.older, fresh.unnamed⟩ passes
    (Nat.le_refl _) rfl ((readyRelated.hold lookup counterRead).goto _) (limitRead.trans stopRead))
    fun register keep => ⟨kept register keep, hides register keep⟩) ?_
  exact fun _ lastStore last lastRelated _ lastPlace =>
    .goto (layout.leaves last lastPlace) (.done (lastRelated.goto _) rfl)

end Loops

end FplCompiler.Codegen
