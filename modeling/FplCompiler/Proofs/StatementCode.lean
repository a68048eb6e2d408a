import FplCompiler.Proofs.ExpressionCode

/-!
The code of statements without loops follows their evaluation: writes to the registers of variables, and chains of
clauses, which meet at one label.
-/

namespace FplCompiler.Codegen

open Ir Reference

open Typed (AssignOp)

variable {μ : Type} {around : Surroundings μ} {passes source : Nat} {inLoop : Bool} {course : Course around passes}
  {final : Ir.Function} {machine : MachineState μ} {store : Store μ} {symbol home : Nat} {state later : State}
  {word : Eval μ Int32}

def Hidden (final : Ir.Function) (state : State) (register : Nat) : Prop :=
  Older state register ∧ ¬ IsVariable final register

structure StmtCode (around : Surroundings μ) (passes : Nat) (inLoop : Bool) (code : Gen Unit) (effect : Eval μ Unit) :
    Prop where
  later : ∀ state, Ready state → Later [] state (code state).2
  follows : ∀ (final : Ir.Function) exits state (machine : MachineState μ) store, Ready state → Inside inLoop state →
    Finished final exits (code state).2 → machine.place = state.function.code.size → Related final store machine →
    Follows around final exits passes (Hidden final state) machine (effect store) fun _ later =>
      later.place = (code state).2.function.code.size

def Course.Hides (course : Course around passes) : Prop :=
  ∀ register, course.keep register → ¬ IsVariable course.final register

def Ends (later : State) (_ : Unit) (last : MachineState μ) : Prop :=
  last.place = later.function.code.size

section Sequences

variable {code first second : Gen Unit} {effect firstEffect secondEffect : Eval μ Unit}

theorem StmtCode.makes (stmtCode : StmtCode around passes inLoop code effect) :
    Makes inLoop [] code fun (course : Course around passes) state _ later =>
      course.Hides → course.Runs state effect (Ends later) where
  later state owns := stmtCode.later state owns.ready
  runs course state owns holds hides machine store place related :=
    (stmtCode.follows course.final course.exits state machine store owns.ready holds.inside holds.finished place
      related).keepLess fun register kept => ⟨holds.older register kept, hides register kept⟩

theorem StmtCode.ofMakes
    (makes : Makes inLoop [] code fun (course : Course around passes) state _ later =>
      course.Hides → course.Runs state effect (Ends later)) : StmtCode around passes inLoop code effect where
  later state ready := makes.later state (.none ready)
  follows final exits state machine store ready inside finished place related :=
    makes.runs ⟨final, exits, Hidden final state⟩ state (.none ready) ⟨inside, finished, fun _ => And.left⟩
      (fun _ => And.right) machine store place related

theorem StmtCode.skip : StmtCode around passes inLoop (pure ()) (pure ()) where
  later state _ := .refl state
  follows _ _ _ _ _ _ _ _ place related := .done related place

theorem StmtCode.seq (firstCode : StmtCode around passes inLoop first firstEffect)
    (secondCode : StmtCode around passes inLoop second secondEffect) :
    StmtCode around passes inLoop (do first; second) (do firstEffect; secondEffect) := by
  refine .ofMakes (.mono (.bind firstCode.makes fun _ => secondCode.makes) ?_)
  rintro course state _ later ⟨_, _, -, firstRuns, secondRuns⟩ hides machine store place related
  refine (firstRuns hides machine store place related).bind ?_
  exact fun _ middleStore middle middleRelated _ middlePlace =>
    secondRuns hides middle middleStore middlePlace middleRelated

theorem ValueCode.asStmt {value : Gen Reg} (code : ValueCode around passes inLoop value word) :
    StmtCode around passes inLoop (do let _ ← value) (do let _ ← word) := by
  refine .ofMakes (.mono (.bind code.makes fun _ => .pure ()) ?_)
  rintro course state _ _ ⟨_, _, -, ⟨-, runs⟩, -, rfl⟩ - machine store place related
  refine (runs machine store place related).bind ?_
  exact fun _ afterStore last afterRelated _ good => .done afterRelated good.1.1

end Sequences

theorem Regular.home_ne_zero (regular : Regular final)
    (lookup : final.variableRegs.lookup symbol = some home) : home ≠ Reg.zero := by
  rintro rfl
  exact absurd (regular.homes symbol _ lookup).1 (by decide)

theorem Related.unset (related : Related final store machine)
    (symbol : SymbolId) : Related final (store.set symbol none) machine := by
  refine ⟨related.memory, related.trace, ?_⟩
  intro other value given
  simp only [Store.set] at given
  split at given
  · simp at given
  · exact related.holds other value given

theorem Related.assignHome (related : Related final store machine)
    (regular : Regular final) (lookup : final.variableRegs.lookup symbol = some home)
    (unset : store.locals symbol = none) (value : Int32) : Related final store (machine.assign home value) := by
  have nonzero := regular.home_ne_zero lookup
  refine ⟨related.memory, related.trace, ?_⟩
  intro other word given
  obtain ⟨otherHome, otherLookup, read⟩ := related.holds other word given
  have different : otherHome ≠ home := by
    rintro rfl
    obtain rfl := regular.apart other symbol otherHome otherLookup lookup
    simp [unset] at given
  exact ⟨otherHome, otherLookup, by rw [machine.read_assign nonzero, if_neg different, read]⟩

theorem Related.hold (related : Related final store machine)
    (lookup : final.variableRegs.lookup symbol = some home) {value : Int32}
    (read : machine.read home = value) : Related final (store.set symbol (some value)) machine := by
  refine ⟨related.memory, related.trace, ?_⟩
  intro other word given
  simp only [Store.set] at given
  split at given
  · subst other
    exact ⟨home, lookup, read.trans (Option.some.inj given)⟩
  · exact related.holds other word given

theorem Related.write (related : Related final store machine)
    (regular : Regular final) (lookup : final.variableRegs.lookup symbol = some home)
    (value : Int32) : Related final (store.set symbol (some value)) (machine.assign home value) := by
  have nonzero := regular.home_ne_zero lookup
  have free := (related.unset symbol).assignHome regular lookup (by simp [Store.set]) value
  have read : (machine.assign home value).read home = value := by rw [machine.read_assign nonzero, if_pos rfl]
  simpa using free.hold lookup read

/-- The register of a variable that is not set. -/
theorem Adds.writeUnset {α : Type} {outcome : Outcome μ α} {result : α → MachineState μ → Prop}
    (adds : Adds course state (.move home source) later) (hides : course.Hides)
    (lookup : course.final.variableRegs.lookup symbol = some home)
    (place : machine.place = state.function.code.size) (related : Related course.final store machine)
    (unset : store.locals symbol = none)
    (continues : ∀ last, last.place = later.function.code.size → Related course.final store last →
      last.read home = machine.read source → course.Follows last outcome result) :
    course.Follows machine outcome result := by
  have regular := adds.finished.regular
  have reads := machine.read_assign (regular.home_ne_zero lookup) (machine.read source)
  refine .after (.assign (adds.foundAt place) rfl) (fun register kept => (reads register).trans (if_neg ?_))
    (continues _ ((congrArg (· + 1) place).trans adds.size.symm) (related.assignHome regular lookup unset _)
      ((reads home).trans (if_pos rfl)))
  rintro rfl
  exact hides _ kept ⟨symbol, lookup⟩

theorem Adds.write {word : Int32} (adds : Adds course state (.move home source) later)
    (hides : course.Hides) (lookup : course.final.variableRegs.lookup symbol = some home)
    (place : machine.place = state.function.code.size) (related : Related course.final store machine)
    (read : machine.read source = word) :
    course.Follows machine (Eval.setVariable symbol (some word) store) (Ends later) := by
  refine adds.writeUnset hides lookup place (related.unset symbol) (by simp [Store.set]) ?_
  intro last lastPlace lastRelated lastRead
  exact .done (by simpa using lastRelated.hold lookup (lastRead.trans read)) lastPlace

section Assignments

variable {table : Declarations} {symbol : SymbolId} {value target : ExprCode}

theorem write_stmtCode (table : Declarations) (symbol : SymbolId) {value : Gen Reg}
    (code : ValueCode around passes inLoop value word) :
    StmtCode around passes inLoop
      (do
        let source ← value
        Emit.add (.move (← Gen.variableRegister table symbol) source))
      (do Eval.setVariable symbol (some (← word))) := by
  refine .ofMakes (.mono (.bind code.makes fun source => .bind (.variableRegister table symbol) fun home =>
    .add (.move home source)) ?_)
  rintro course state _ later ⟨source, _, -, ⟨-, runs⟩, home, _, -, ⟨lookup, -, same⟩, writes⟩ hides machine store place
    related
  refine (runs machine store place related).bind ?_
  exact fun word afterStore last afterRelated _ good =>
    writes.write hides lookup (good.1.1.trans same.symm) afterRelated good.1.2

theorem update_stmtCode (table : Declarations) (symbol : SymbolId) {op : AluOp} (integer : op.isInteger = true)
    {value : Gen Reg} (code : ValueCode around passes inLoop value word) :
    StmtCode around passes inLoop
      (do
        let home ← Gen.variableRegister table symbol
        Emit.add (.move home (← Emit.alu op home (← value))))
      ((do Eval.ofOption (op.evaluate? (← Eval.readVariable symbol) (← word))) >>= fun result =>
        Eval.setVariable symbol (some result)) := by
  refine .ofMakes (.mono (.bind (.variableRegister table symbol) fun home => .bind code.makes fun source =>
    .bind (.toTemp (fun dest => .alu op dest home source) fun _ => rfl) fun result => .add (.move home result)) ?_)
  rintro course state _ later ⟨home, _, -, ⟨lookup, older, same⟩, source, _, -, ⟨-, runs⟩, result, _, -, ⟨fresh, adds⟩,
    writes⟩ hides machine store place related
  simp only [bind_assoc]
  refine (runs_variable lookup same).pair (.inr older) runs ?_ machine store place related
  intro current operand store last related place currentRead operandRead
  cases evaluated : op.evaluate? current operand with
  | none => trivial
  | some word =>
    refine adds.set fresh.toFree place related ?_ fun last lastPlace lastRelated read _ =>
      writes.write hides lookup lastPlace lastRelated read
    simp only [effect, currentRead, operandRead, around.operate_integer integer, evaluated, Option.map_some]

theorem assign_stmtCode (table : Declarations) (op : AssignOp) (code : ValueCode around passes inLoop value.value word)
    (isVariable : target.place = do return .register (← Gen.variableRegister table symbol)) :
    StmtCode around passes inLoop (assign op target value)
      (do Eval.setVariable symbol (some (← stored symbol op word))) := by
  cases op <;> rw [assign, isVariable]
  case replace => exact write_stmtCode table symbol code
  all_goals exact update_stmtCode table symbol rfl code

theorem declare_stmtCode (code : ValueCode around passes inLoop value.value word)
    (local_ : isLocal (table.symbol symbol) = true) :
    StmtCode around passes inLoop (do writeVariable table symbol (← value.value))
      (do Eval.setVariable symbol (some (← word))) := by
  have inRegister : globalVarPlace table (table.symbol symbol).type symbol =
      do return .register (← Gen.variableRegister table symbol) := by
    rw [isLocal] at local_
    rw [globalVarPlace]
    split
    · simp_all
    · rfl
  simp only [writeVariable, inRegister]
  exact write_stmtCode table symbol code

theorem unset_stmtCode (symbol : SymbolId) :
    StmtCode around passes inLoop (pure ()) (Eval.setVariable symbol none) where
  later state _ := .refl state
  follows _ _ _ _ _ _ _ _ place related := .done (related.unset symbol) place

end Assignments

theorem print_stmtCode (routine : Routine) {value : ExprCode} (code : ValueCode around passes inLoop value.value word) :
    StmtCode around passes inLoop (runRoutine routine value)
      (do let _ ← Eval.call around routine.name false [← word]) := by
  have single : ValuesCode around passes inLoop 1 (do return [← value.value]) (do return [← word]) := .cons code .nil
  have called := (single.call (by decide) routine.name false).asStmt
  simp only [bind_assoc] at called
  exact called

/-! Chains of clauses, which may look at the register of a subject. -/

/-- The evaluation depends on the word of the subject, which stays. -/
def Course.Examines {α : Type} (course : Course around passes) (subject : Reg) (state : State)
    (decision : Int32 → Eval μ α) (result : α → MachineState μ → Prop) : Prop :=
  IsValue state subject → ∀ machine store, machine.place = state.function.code.size →
    Related course.final store machine → course.Follows machine (decision (machine.read subject) store)
      fun value last => result value last ∧ last.read subject = machine.read subject

def TestCode (around : Surroundings μ) (passes : Nat) (inLoop : Bool) (subject : Nat) (own : List Label)
    (test : Label → Gen Unit) (decision : Int32 → Eval μ Bool) : Prop :=
  ∀ next, Makes inLoop own (test next) fun (course : Course around passes) state _ later =>
    ∀ nextPlace, labelPlace? course.final.code next = some nextPlace →
      course.Examines subject state decision fun holds last =>
        last.place = if holds then later.function.code.size else nextPlace

def CandidatesCode (around : Surroundings μ) (passes : Nat) (inLoop : Bool) (subject : Nat) (code : Label → Gen Unit)
    (decision : Int32 → Eval μ Bool) : Prop :=
  ∀ chosen, Makes inLoop [] (code chosen) fun (course : Course around passes) state _ later =>
    ∀ chosenPlace, labelPlace? course.final.code chosen = some chosenPlace →
      course.Examines subject state decision fun found last =>
        last.place = if found then chosenPlace else later.function.code.size

def ChainRuns (subject : Nat) (effect : Int32 → Eval μ Unit) (done : Label) (course : Course around passes)
    (state : State) (_ : Unit) (later : State) : Prop :=
  course.Hides → labelPlace? course.final.code done = some later.function.code.size → IsValue state subject →
    ∀ machine store, machine.place = state.function.code.size → Related course.final store machine →
      course.Follows machine (effect (machine.read subject) store) (Ends later)

def ChainCode (around : Surroundings μ) (passes : Nat) (inLoop : Bool) (subject : Nat) (code : Label → Gen Unit)
    (effect : Int32 → Eval μ Unit) : Prop :=
  ∀ done, Makes inLoop [] (code done) (ChainRuns subject effect done : Course around passes → _)

section Chains

variable {subject : Nat} {own : List Label} {test : Label → Gen Unit} {decision : Int32 → Eval μ Bool} {body : Gen Unit}
  {bodyEffect : Eval μ Unit} {restEffect : Int32 → Eval μ Unit} {rest : Label → Gen Unit}

/-- A clause places the label that follows it. -/
theorem TestCode.clause (testCode : TestCode around passes inLoop subject own test decision)
    (bodyCode : StmtCode around passes inLoop body bodyEffect)
    (restCode : ChainCode around passes inLoop subject rest restEffect) (done next : Label) :
    Makes inLoop (own ++ [next])
      (do
        test next
        body
        Emit.add (.jump done)
        Emit.add (.label next)
        rest done)
      (ChainRuns subject (fun word => do if ← decision word then bodyEffect else restEffect word) done :
        Course around passes → _) := by
  refine .mono (.bind (testCode next) fun _ => .bind bodyCode.makes fun _ => .bind (.add (.jump done)) fun _ =>
    .bind (.add (.label next)) fun _ => restCode done) ?_
  rintro course state _ later ⟨_, _, toTested, tests, _, _, toRan, runs, _, _, toJumped, jumps, _, _,
    toJoined, joins, chain⟩ hides donePlaced isSubject machine store place related
  refine (tests _ joins.placed isSubject machine store place related).bind ?_
  rintro holds testStore tested testRelated - ⟨testPlace, subjectRead⟩
  cases holds with
  | true =>
    refine (runs hides tested testStore testPlace testRelated).finish ?_
    intro _ bodyStore ran bodyRelated _ ranPlace
    exact jumps.jump donePlaced ranPlace (.done (bodyRelated.goto _) rfl)
  | false =>
    refine joins.label testPlace ?_
    have isValue := (((toTested.trans toRan).trans toJumped).trans toJoined).isValue isSubject
    rw [← subjectRead]
    exact chain hides donePlaced isValue (tested.goto _) testStore rfl (testRelated.goto _)

theorem ChainCode.nil : ChainCode around passes inLoop subject (fun _ => pure ()) fun _ => pure () := by
  refine fun done => .mono (.pure ()) ?_
  rintro course state _ _ ⟨-, rfl⟩ - - - machine store place related
  exact .done related place

theorem ChainCode.last (bodyCode : StmtCode around passes inLoop body bodyEffect) :
    ChainCode around passes inLoop subject (fun _ => body) fun _ => bodyEffect :=
  fun _ => bodyCode.makes.mono fun _ _ _ _ runs hides _ _ => runs hides

theorem ChainCode.always (bodyCode : StmtCode around passes inLoop body bodyEffect)
    (restCode : ChainCode around passes inLoop subject rest restEffect) :
    ChainCode around passes inLoop subject
      (fun done => do
        body
        Emit.add (.jump done)
        rest done)
      fun _ => bodyEffect := by
  refine fun done => .mono (.bind bodyCode.makes fun _ => .bind (.add (.jump done)) fun _ => restCode done) ?_
  rintro course state _ later ⟨_, _, -, runs, _, _, -, jumps, -⟩ hides donePlaced - machine store place related
  refine (runs hides machine store place related).finish ?_
  exact fun _ bodyStore ran bodyRelated _ ranPlace => jumps.jump donePlaced ranPlace (.done (bodyRelated.goto _) rfl)

theorem BranchCode.asTest {condition : Label → Bool → Gen Unit} {conditionValue : Eval μ Int32}
    (conditionCode : BranchCode around passes inLoop condition conditionValue) :
    TestCode around passes inLoop subject [] (fun next => condition next false)
      fun _ => do return decide ((← conditionValue) ≠ 0) := by
  refine fun next => (conditionCode.keeps next false).mono ?_
  intro course state _ later runs nextPlace placed isSubject machine store place related
  refine (runs nextPlace placed machine store place related).bind ?_
  rintro word afterStore last afterRelated - ⟨lastPlace, kept⟩
  refine .done afterRelated ⟨lastPlace.trans ?_, kept.value isSubject⟩
  by_cases zero : word = 0
  · rw [if_pos (by simp [zero]), if_neg (by simp [zero])]
  · rw [if_neg (by simp [zero]), if_pos (by simp [zero])]

theorem CandidatesCode.nil : CandidatesCode around passes inLoop subject (fun _ => pure ()) fun _ => pure false := by
  refine fun chosen => .mono (.pure ()) ?_
  rintro course state _ _ ⟨-, rfl⟩ chosenPlace placed - machine store place related
  exact .done related ⟨place, rfl⟩

theorem CandidatesCode.cons {candidate : Gen Reg} {candidateValue : Eval μ Int32}
    (candidateCode : ValueCode around passes inLoop candidate candidateValue) {others : Label → Gen Unit}
    {othersDecision : Int32 → Eval μ Bool}
    (othersCode : CandidatesCode around passes inLoop subject others othersDecision) :
    CandidatesCode around passes inLoop subject
      (fun chosen => do
        branchOn .eqI subject (← candidate) chosen true
        others chosen)
      (fun word => do if word = (← candidateValue) then pure true else othersDecision word) := by
  refine fun chosen => .mono (.bind candidateCode.makes fun value => .bind (.branchOn .eqI subject value chosen true)
    fun _ => othersCode chosen) ?_
  rintro course state _ later ⟨value, _, toValue, ⟨-, runs⟩, _, _, toBranched, branches, others⟩
    chosenPlace placed isSubject machine store place related
  refine (runs machine store place related).bind ?_
  rintro word afterStore valued afterRelated - ⟨⟨valuedPlace, read⟩, kept⟩
  have subjectRead := kept.value isSubject
  have compared : AluOp.eqI.evaluate? (valued.read subject) (valued.read value) =
      some (AluOp.truth (machine.read subject = word)) := by
    rw [read, subjectRead]
    rfl
  refine branches.branchOn (rfl : AluOp.eqI.inverse? = some .neqI) placed valuedPlace compared ?_
  by_cases same : machine.read subject = word
  · rw [if_pos (by simp [same, AluOp.truth]), if_pos same]
    exact .done (afterRelated.goto _) ⟨rfl, subjectRead⟩
  · rw [if_neg (by simp [same, AluOp.truth]), if_neg same, ← subjectRead]
    exact others chosenPlace placed ((toValue.trans toBranched).isValue isSubject) (valued.goto _) afterStore rfl
      (afterRelated.goto _)

theorem CandidatesCode.asTest {candidates : Label → Gen Unit}
    (candidatesCode : CandidatesCode around passes inLoop subject candidates decision) (chosen : Label) :
    TestCode around passes inLoop subject [chosen]
      (fun next => do
        candidates chosen
        Emit.add (.jump next)
        Emit.add (.label chosen))
      decision := by
  refine fun next => .mono (.bind (candidatesCode chosen) fun _ => .bind (.add (.jump next)) fun _ =>
    .add (.label chosen)) ?_
  rintro course state _ later ⟨_, _, -, tests, _, _, -, jumps, chooses⟩
    nextPlace placed isSubject machine store place related
  refine (tests _ chooses.placed isSubject machine store place related).finish ?_
  rintro found afterStore last afterRelated - ⟨lastPlace, subjectRead⟩
  cases found with
  | true => exact chooses.label lastPlace (.done (afterRelated.goto _) ⟨rfl, subjectRead⟩)
  | false => exact jumps.jump placed lastPlace (.done (afterRelated.goto _) ⟨rfl, subjectRead⟩)

theorem ValueCode.chain {value : Gen Reg} {valueWord : Eval μ Int32}
    (valueCode : ValueCode around passes inLoop value valueWord) {clauses : Reg → Label → Gen Unit}
    {effect : Int32 → Eval μ Unit}
    (clausesCode : ∀ subject, ChainCode around passes inLoop subject (clauses subject) effect) :
    StmtCode around passes inLoop
      (do
        let subject ← value
        let done ← Emit.newLabel
        clauses subject done
        Emit.add (.label done))
      (valueWord >>= effect) := by
  refine .ofMakes (.mono (.bind valueCode.makes fun subject => .newLabel [] (fun done =>
    .bind (clausesCode subject done) fun _ => .add (.label done)) fun _ => .refl _) ?_)
  rintro course state _ later ⟨subject, _, -, ⟨isValue, runs⟩, _, _, -, chain, ends⟩ hides machine store place related
  refine (runs machine store place related).bind ?_
  rintro _ afterStore valued afterRelated - ⟨⟨valuedPlace, rfl⟩, -⟩
  refine (chain hides ends.placed isValue valued afterStore valuedPlace afterRelated).finish ?_
  exact fun _ endStore ran ranRelated _ ranPlace => ends.label ranPlace (.done (ranRelated.goto _) rfl)

theorem zero_valueCode : ValueCode around passes inLoop (pure Reg.zero) (pure 0) where
  later state _ := .refl state
  isValue _ _ := Or.inl rfl
  follows _ _ _ machine _ _ _ _ place related := .done related ⟨place, machine.read_zero⟩

end Chains

end FplCompiler.Codegen
