import FplCompiler.Proofs.LoopCode

/-!
The code of a function of the structured language does what the function means. Every statement is followed by its
code; the parameters come out of the registers of arguments, and the function ends at its return.
-/

namespace FplCompiler.Codegen

open Ir Reference

open Typed (Expr Stmt IfClause WhenClause)

variable {μ : Type} {around : Surroundings μ} {passes : Nat} {inLoop : Bool}

theorem print_forM_stmtCode (table : Declarations) (arguments : List Expr)
    (printable : arguments.all (isPrintable inLoop) = true) :
    StmtCode around passes inLoop (arguments.forM (print table)) (evalPrint around table arguments) := by
  induction arguments with
  | nil => exact .skip
  | cons argument rest ih =>
    simp only [List.all_cons, Bool.and_eq_true, isPrintable] at printable
    obtain ⟨routine, found⟩ := Option.isSome_iff_exists.mp printable.1.1
    have code : CodeFor around passes inLoop (exprCode table argument) (evalExpr around table argument) :=
      exprCode_codeFor table argument printable.1.2
    have both := (print_stmtCode routine code.value).seq (ih printable.2)
    rw [List.forM_eq_forM, List.forM_cons, print, evalPrint]
    simpa [found] using both

theorem candidates_code (table : Declarations) {subject : Nat} (candidates : List Expr)
    (structured : allStructured inLoop candidates = true) :
    CandidatesCode around passes inLoop subject
      (fun chosen => (exprCodes table candidates).forM fun candidate => do
        let value ← candidate.value
        branchOnCase false subject value chosen)
      fun word => evalCandidates around table word candidates := by
  induction candidates with
  | nil =>
    simp only [exprCodes]
    exact .nil
  | cons candidate rest ih =>
    rw [allStructured, Bool.and_eq_true] at structured
    simp only [exprCodes]
    exact .cons (exprCode_codeFor table candidate structured.1).value (ih structured.2)

theorem whenClause_chainCode (table : Declarations) {subject : Nat}
    (candidates : List Expr) (structured : allStructured inLoop candidates = true) {body : Gen Unit}
    {bodyEffect : Eval μ Unit} (bodyCode : StmtCode around passes inLoop body bodyEffect) {rest : Label → Gen Unit}
    {restEffect : Int32 → Eval μ Unit} (restCode : ChainCode around passes inLoop subject rest restEffect) :
    ChainCode around passes inLoop subject
      (fun done => do
        whenClause false subject (exprCodes table candidates) body done
        rest done)
      (fun word => if candidates.isEmpty then bodyEffect else do
        if ← evalCandidates around table word candidates then bodyEffect else restEffect word) := by
  cases candidates with
  | nil =>
    exact .always bodyCode restCode
  | cons candidate others =>
    exact fun done => .newLabel [] (fun chosen => .newLabel [chosen] (fun next => TestCode.clause
      (CandidatesCode.asTest (candidates_code table (candidate :: others) structured) chosen) bodyCode restCode done next)
      fun _ => .swap ..) fun _ => .refl _

mutual

theorem stmtCode_stmtCode (table : Declarations) (inLoop : Bool) : (stmt : Stmt) →
    stmtIsStructured table inLoop stmt = true →
    StmtCode around passes inLoop (stmtCode table stmt) (evalStmt around table passes stmt)
  | .expression expr, structured => by
    rw [stmtIsStructured] at structured
    rw [stmtCode, evalStmt]
    exact (exprCode_codeFor table expr structured).value.asStmt
  | .assign op (.mk (.localVar symbol) _ _) value, structured => by
    rw [stmtIsStructured] at structured
    rw [stmtCode, evalStmt]
    refine assign_stmtCode table op (exprCode_codeFor table value structured).value ?_
    rw [exprCode, shapeCode]
    rfl
  | .declare symbol (some value), structured => by
    simp only [stmtIsStructured, Bool.and_eq_true, Option.map_some, Option.getD_some] at structured
    rw [stmtCode, evalStmt]
    exact declare_stmtCode (exprCode_codeFor table value structured.2).value structured.1
  | .declare symbol none, _ => by
    rw [stmtCode, evalStmt]
    exact unset_stmtCode symbol
  | .print arguments, structured => by
    rw [stmtIsStructured] at structured
    rw [stmtCode, evalStmt]
    exact print_forM_stmtCode table arguments structured
  | .ifChain clauses, structured => by
    rw [stmtIsStructured] at structured
    rw [stmtCode, evalStmt]
    exact zero_valueCode.chain fun subject => ifClausesCode_chainCode table inLoop subject clauses structured
  | .whileLoop condition body, structured => by
    simp only [stmtIsStructured, Bool.and_eq_true] at structured
    rw [stmtCode, evalStmt]
    exact while_stmtCode (exprCode_codeFor table condition structured.1).branch
      (blockCode_stmtCode table true body structured.2)
  | .repeatLoop condition body, structured => by
    simp only [stmtIsStructured, Bool.and_eq_true] at structured
    rw [stmtCode, evalStmt]
    exact repeat_stmtCode (exprCode_codeFor table condition structured.1).branch
      (blockCode_stmtCode table true body structured.2)
  | .forLoop symbol (.mk (.range start stop op) _ _) body, structured => by
    simp only [stmtIsStructured, Bool.and_eq_true] at structured
    rw [stmtCode, evalStmt]
    exact forRange_stmtCode table symbol op (exprCode_codeFor table start structured.1.1.2).value
      (exprCode_codeFor table stop structured.1.2).value (blockCode_stmtCode table true body structured.2)
  | .whenCases subject clauses, structured => by
    simp only [stmtIsStructured, Bool.and_eq_true, decide_eq_true_eq] at structured
    have noString : decide (subject.type = .string) = false := by simpa using structured.1.1
    rw [stmtCode, evalStmt, noString]
    exact (exprCode_codeFor table subject structured.1.2).value.chain fun subject =>
      whenClausesCode_chainCode table inLoop clauses structured.2

theorem blockCode_stmtCode (table : Declarations) (inLoop : Bool) : (stmts : List Stmt) →
    blockIsStructured table inLoop stmts = true →
    StmtCode around passes inLoop (blockCode table stmts) (evalBlock around table passes stmts)
  | [], _ => by
    rw [blockCode, evalBlock]
    exact .skip
  | stmt :: rest, structured => by
    simp only [blockIsStructured, Bool.and_eq_true] at structured
    rw [blockCode, evalBlock]
    exact (stmtCode_stmtCode table inLoop stmt structured.1).seq (blockCode_stmtCode table inLoop rest structured.2)

theorem ifClausesCode_chainCode (table : Declarations) (inLoop : Bool) (subject : Nat) :
    (clauses : List IfClause) → ifIsStructured table inLoop clauses = true →
    ChainCode around passes inLoop subject (fun done => ifClausesCode table done clauses)
      fun _ => evalIf around table passes clauses
  | [], _ => by
    simp only [ifClausesCode, evalIf]
    exact .nil
  | .mk none body :: rest, structured => by
    simp only [ifIsStructured, Bool.and_eq_true, List.isEmpty_iff] at structured
    obtain ⟨bodyStructured, rfl⟩ := structured
    rw [evalIf]
    simp only [ifClausesCode, optionCode, ifClause]
    exact .last (blockCode_stmtCode table inLoop body bodyStructured)
  | .mk (some condition) body :: rest, structured => by
    simp only [ifIsStructured, Bool.and_eq_true] at structured
    simp only [ifClausesCode, optionCode, ifClause, evalIf]
    have code (done next : Label) := (exprCode_codeFor table condition structured.1.1).branch.asTest.clause
      (blockCode_stmtCode table inLoop body structured.1.2)
      (ifClausesCode_chainCode table inLoop subject rest structured.2) done next
    simp only [bind_assoc, pure_bind, decide_eq_true_eq] at code
    exact fun done => .newLabel [] (code done) fun _ => .refl _

theorem whenClausesCode_chainCode (table : Declarations) (inLoop : Bool) {subject : Nat} :
    (clauses : List WhenClause) → whenIsStructured table inLoop clauses = true →
    ChainCode around passes inLoop subject (fun done => whenClausesCode table false subject done clauses)
      fun word => evalWhen around table passes word clauses
  | [], _ => by
    simp only [whenClausesCode, evalWhen]
    exact .nil
  | .mk candidates body :: rest, structured => by
    simp only [whenIsStructured, Bool.and_eq_true] at structured
    simp only [whenClausesCode, evalWhen]
    exact whenClause_chainCode table candidates structured.1.1 (blockCode_stmtCode table inLoop body structured.1.2)
      (whenClausesCode_chainCode table inLoop rest structured.2)

end

def receiveFrom (table : Declarations) (parameters : List SymbolId) (index : Nat) : Gen Unit :=
  (parameters.zipIdx index).forM fun entry => do
    let register ← Gen.variableRegister table entry.1
    Emit.add (.move register (Reg.argument entry.2))

theorem Makes.receiveFrom (table : Declarations) (parameters : List SymbolId) (index : Nat) :
    Makes inLoop [] (Codegen.receiveFrom table parameters index) fun (course : Course around passes) state _ later =>
      index + parameters.length < Reg.machineCount → ∀ machine store, machine.place = state.function.code.size →
        Related course.final store machine → ∃ last, Reaches around course.final.code machine last ∧
          Related course.final (store.receive (parameters.zip
            ((List.range' index parameters.length).map fun position => machine.read (Reg.argument position)))) last ∧
          last.place = later.function.code.size := by
  induction parameters generalizing index with
  | nil =>
    refine .mono (.pure ()) ?_
    rintro course state _ _ ⟨-, rfl⟩ - machine store place related
    exact ⟨machine, .refl machine, related, place⟩
  | cons parameter rest ih =>
    have makes : Makes inLoop [] (Codegen.receiveFrom table (parameter :: rest) index) _ :=
      .bind (.variableRegister table parameter) fun home => .bind (.add (.move home (Reg.argument index))) fun _ =>
        ih (index + 1)
    refine .mono makes ?_
    rintro course state _ later ⟨home, _, -, ⟨lookup, -, same⟩, _, _, -, moves, receives⟩ few machine store place related
    rw [List.length_cons] at few
    have regular := moves.finished.regular
    have virtual := (regular.homes parameter home lookup).1
    have movedPlace := place.trans same.symm
    obtain ⟨last, reaches, lastRelated, lastPlace⟩ := receives (by omega) _ _
      ((congrArg (· + 1) movedPlace).trans moves.size.symm)
        (related.write regular lookup (machine.read (Reg.argument index)))
    refine ⟨last, (Reaches.assign (moves.foundAt movedPlace) rfl).trans reaches, ?_, lastPlace⟩
    refine cast (congrArg (fun words => Related course.final (Store.receive _ (rest.zip words)) last) ?_) lastRelated
    apply List.map_congr_left
    intro position member
    obtain ⟨offset, bound, rfl⟩ := List.mem_range'.mp member
    have different : Reg.argument (index + 1 + 1 * offset) ≠ home := (by omega : index + 1 + 1 * offset + 1 ≠ home)
    rw [machine.read_assign (regular.home_ne_zero lookup), if_neg different]

theorem Makes.received (around : Surroundings μ) (passes : Nat) (table : Declarations) (parameters : List SymbolId)
    (body : List Stmt) (structured : blockIsStructured table false body = true) :
    Makes false [] (do Codegen.receiveFrom table parameters 0; blockCode table body)
      fun (course : Course around passes) state _ later =>
        parameters.length < Reg.machineCount → (∀ register, ¬ course.keep register) →
        ∀ machine store, machine.place = state.function.code.size → Related course.final store machine →
          course.Follows machine (evalBlock around table passes body (store.receive (parameters.zip
            ((List.range parameters.length).map fun position => machine.read (Reg.argument position))))) (Ends later) := by
  refine .mono (.bind (.receiveFrom table parameters 0) fun _ => (blockCode_stmtCode table false body structured).makes) ?_
  rintro course state _ later ⟨_, _, -, receives, runs⟩ few free machine store place related
  obtain ⟨last, reaches, lastRelated, lastPlace⟩ := receives (by omega) machine store place related
  rw [← List.range_eq_range'] at lastRelated
  exact .after reaches (fun register kept => absurd kept (free register))
    (runs (fun register kept => absurd kept (free register)) last _ lastPlace lastRelated)

theorem ready_empty (state : State) (name : String) (returns : Bool) :
    let entered := ({ state with function := .empty name returns, loop := none } : State).add .start
    Ready entered ∧ Reserved Function.returnLabel entered ∧ entered.loop = none := by
  intro entered
  have unplaced : placedLabels entered.function.code = [] := rfl
  have machine : entered.function.registers.size = Reg.machineCount := by
    simp [entered, State.add, Function.empty]
  have nameless : ∀ symbol : Nat, entered.function.variableRegs.lookup symbol = none := fun _ => rfl
  refine ⟨⟨⟨by rw [machine], by simp [unplaced], by simp [unplaced], ?_, ?_⟩, ?_⟩, ⟨⟨Nat.zero_lt_one, ?_⟩, ?_⟩, rfl⟩
  · intro symbol register given
    simp [nameless] at given
  · intro symbol other register given
    simp [nameless] at given
  · intro label next
    simp [State.nextPass?, entered, State.add] at next
  · simp [unplaced]
  · simp [State.nextPass?, entered, State.add]

def allParameters (function : FunctionDef) : List SymbolId :=
  function.thisSymbol.toList ++ function.parameters

theorem functionCode_apply (table : Declarations) (id : FunctionId) (body : Gen Unit) (state : State) :
    let function := table.function id
    let noted : State := { state with trace := ("lowering " ++ function.label) :: state.trace }
    let entered := ({ noted with
      function := .empty function.label function.returnType.isReturned, loop := none } : State).add .start
    let ran := (body (receiveFrom table (allParameters function) 0 entered).2).2
    let last := (ran.add (.label Function.returnLabel)).add (.ret ran.function.returnsValue)
    (functionCode table id body state).2.program.functions = last.program.functions ++ [last.function] :=
  rfl

theorem functionCode_follows (table : Declarations) (id : FunctionId) (body : List Stmt)
    (structured : blockIsStructured table false body = true)
    (few : (allParameters (table.function id)).length < Reg.machineCount) (state : State) :
    ∃ (function : Ir.Function) (place : Nat),
      (functionCode table id (blockCode table body) state).2.program.functions =
        state.program.functions ++ [function] ∧
      function.code[place]? = some (.label Function.returnLabel) ∧
      function.code[place + 1]? = some (.ret function.returnsValue) ∧
      ∀ {μ : Type} (around : Surroundings μ) (passes : Nat) (registers : Reg → Int32) (memory : μ),
        Follows around function ⟨0, 0, place⟩ passes (fun _ => False) (.entry registers memory)
          (evalBlock around table passes body (Store.receive ⟨fun _ => none, memory, []⟩
            ((allParameters (table.function id)).zip
              ((Instr.argumentRegisters (allParameters (table.function id)).length).map registers))))
          fun _ later => later.place = place := by
  let function := table.function id
  let parameters := allParameters function
  let noted : State := { state with trace := ("lowering " ++ function.label) :: state.trace }
  let entered := ({ noted with
    function := .empty function.label function.returnType.isReturned, loop := none } : State).add .start
  let ran := (blockCode table body (receiveFrom table parameters 0 entered).2).2
  let joined := ran.add (.label Function.returnLabel)
  let last := joined.add (.ret ran.function.returnsValue)
  obtain ⟨enteredReady, returnReserved, enteredLoop⟩ := ready_empty noted function.label function.returnType.isReturned
  have toRan : Later [] entered ran :=
    (Makes.received Surroundings.none 0 table parameters body structured).later entered (.none enteredReady)
  have toJoined : Later [Function.returnLabel] ran joined := .addLabel (toRan.reserved _ (by simp) returnReserved)
  have toLast : Later [] joined last := .addPlain _ rfl
  have steps := (toRan.trans toJoined).trans toLast
  have lastReady := steps.ready enteredReady
  have lastLoop := steps.noLoop enteredLoop
  have labelFound : last.function.code[ran.function.code.size]? = some (.label Function.returnLabel) :=
    toLast.extends_.found (by simp [joined, State.add])
  have returnFound : last.function.code[ran.function.code.size + 1]? = some (.ret last.function.returnsValue) := by
    have size : joined.function.code.size = ran.function.code.size + 1 := Array.size_push _
    rw [← size]
    simp [last, State.add]
    rfl
  have finished : Finished last.function ⟨0, 0, ran.function.code.size⟩ last := by
    refine ⟨lastReady.regular, .refl _, labelPlace?_of_unique lastReady.regular.unique labelFound, ?_, ?_⟩
    · intro labels given
      simp [lastLoop] at given
    · intro label next
      simp [State.nextPass?, lastLoop] at next
  refine ⟨last.function, ran.function.code.size, ?_, labelFound, returnFound, ?_⟩
  · exact (functionCode_apply table id (blockCode table body) state).trans
      (congrArg (· ++ [last.function]) steps.functions)
  · intro μ around passes registers memory
    have ranFinished := (finished.before toLast).before toJoined
    have startFound : last.function.code[0]? = some .start := (ranFinished.before toRan).extends_.found rfl
    have starts : Reaches around last.function.code (.entry registers memory)
        ((MachineState.entry registers memory).goto entered.function.code.size) := .goto startFound rfl
    have arguments : (Instr.argumentRegisters parameters.length).map registers =
        (List.range parameters.length).map fun position =>
          ((MachineState.entry registers memory).goto entered.function.code.size).read (Reg.argument position) := by
      rw [Instr.argumentRegisters, List.map_map]
      apply List.map_congr_left
      intro position _
      rfl
    rw [arguments]
    refine .after starts (fun _ no => no.elim) ?_
    exact (Makes.received around passes table parameters body structured).runs
      ⟨last.function, ⟨0, 0, ran.function.code.size⟩, fun _ => False⟩ entered (.none enteredReady)
      ⟨by simp [Inside], ranFinished, by simp⟩ few (by simp) _ ⟨fun _ => none, memory, []⟩ rfl ⟨rfl, rfl, by simp⟩

/-- The code of a function of the structured language does what the function means: it makes the same calls and returns
with the same value, and it does not end if the evaluation never does. -/
theorem functionBody_runs_as_evaluated (table : Declarations) (id : FunctionId) (body : List Stmt)
    (structured : blockIsStructured table false body = true)
    (few : (allParameters (table.function id)).length < Reg.machineCount) (state : State) :
    ∃ function : Ir.Function,
      (stmtCode table (.functionBody id body) state).2.program.functions = state.program.functions ++ [function] ∧
      ∀ {μ : Type} (around : Surroundings μ) (registers : Reg → Int32) (memory : μ),
        let evaluated (passes : Nat) := evalFunction around table passes
          ((allParameters (table.function id)).zip
            ((Instr.argumentRegisters (allParameters (table.function id)).length).map registers)) memory body
        let runs (steps : Nat) := run around function.code steps (.entry registers memory)
        (∀ passes value store, evaluated passes = .done value store →
          ∃ steps last, runs steps = some last ∧ function.code[last.place]? = some (.ret function.returnsValue) ∧
            last.trace = store.trace ∧ last.memory = store.memory ∧
            ∀ word, value = some word → last.read Reg.result = word) ∧
        (∀ passes store, evaluated passes = .timeout store →
          ∃ steps last, passes ≤ steps ∧ runs steps = some last ∧ last.trace = store.trace ∧
            last.memory = store.memory) ∧
        ((∀ passes, ∃ store, evaluated passes = .timeout store) → ∀ steps, ∃ last, runs steps = some last) := by
  obtain ⟨function, place, appended, labelFound, returnFound, follows⟩ :=
    functionCode_follows table id body structured few state
  refine ⟨function, by exact appended, ?_⟩
  intro μ around registers memory evaluated runs
  have returns : ∀ (machine : MachineState μ) store,
      Reaches around function.code (.entry registers memory) machine → machine.place = place →
      Related function store machine →
      ∃ steps last, runs steps = some last ∧ function.code[last.place]? = some (.ret function.returnsValue) ∧
        last.trace = store.trace ∧ last.memory = store.memory ∧ last.read Reg.result = machine.read Reg.result := by
    intro machine store reaches atLabel related
    have found : function.code[machine.place]? = some (.label Function.returnLabel) := atLabel ▸ labelFound
    have label : Reaches around function.code machine (machine.goto (place + 1)) := .goto found (by rw [← atLabel]; rfl)
    obtain ⟨steps, reached⟩ := reaches.trans label
    exact ⟨steps, _, reached, returnFound, related.trace, related.memory, rfl⟩
  have timeouts : ∀ passes store, evaluated passes = .timeout store → ∃ steps last, passes ≤ steps ∧
      runs steps = some last ∧ last.trace = store.trace ∧ last.memory = store.memory := by
    intro passes store timeout
    have outcome := follows around passes registers memory
    rw [block_of_evalFunction_timeout timeout] at outcome
    obtain ⟨steps, last, enough, reached, memory, trace⟩ := outcome
    exact ⟨steps, last, enough, reached, trace, memory⟩
  refine ⟨?_, timeouts, ?_⟩
  · intro passes value store done
    have outcome := follows around passes registers memory
    rcases block_of_evalFunction_done done with ⟨ended, rfl⟩ | left
    · rw [ended] at outcome
      obtain ⟨machine, reaches, related, _, atLabel⟩ := outcome
      obtain ⟨steps, last, reached, found, trace, memory, _⟩ := returns machine store reaches atLabel related
      exact ⟨steps, last, reached, found, trace, memory, by simp⟩
    · rw [left] at outcome
      obtain ⟨machine, reaches, related, atLabel, value⟩ := outcome
      obtain ⟨steps, last, reached, found, trace, memory, same⟩ := returns machine store reaches atLabel related
      exact ⟨steps, last, reached, found, trace, memory, fun word given => same.trans (value word given)⟩
  · intro diverges steps
    obtain ⟨store, timeout⟩ := diverges steps
    obtain ⟨more, last, enough, reached, _⟩ := timeouts steps store timeout
    obtain ⟨rest, rfl⟩ := Nat.exists_eq_add_of_le enough
    simp only [runs, run_add] at reached
    obtain ⟨middle, found, _⟩ := Option.bind_eq_some_iff.mp reached
    exact ⟨middle, found⟩

def integer (shape : Typed.ExprShape) : Expr :=
  .mk shape .nowhere .int

def singleParameter : Declarations where
  functions := #[{ (default : FunctionDef) with parameters := [2], returnType := .int }]

def skippingSum : List Stmt :=
  [.declare 0 (some (integer (.int 0))),
    .forLoop 1 (integer (.range (integer (.int 0)) (integer (.localVar 2)) .ltI))
      [.ifChain [.mk (some (integer (.binary .eqI (integer (.localVar 1)) (integer (.int 3)))))
          [.expression (integer .continueExpr)]],
        .assign .add (integer (.localVar 0)) (integer (.localVar 1))],
    .expression (integer (.returnExpr (some (integer (.localVar 0)))))]

theorem functionBody_runs_as_evaluated_skippingSum :
    blockIsStructured singleParameter false skippingSum = true ∧
    (allParameters (singleParameter.function 0)).length < Reg.machineCount ∧
    ∃ function : Ir.Function,
      (stmtCode singleParameter (.functionBody 0 skippingSum) ⟨default, default, none, []⟩).2.program.functions =
        [function] ∧
      ∃ steps last, run Surroundings.none function.code steps (.entry (fun _ => 5) ()) = some last ∧
        function.code[last.place]? = some (.ret function.returnsValue) ∧ last.read Reg.result = 7 := by
  have structured : blockIsStructured singleParameter false skippingSum = true := by decide
  have few : (allParameters (singleParameter.function 0)).length < Reg.machineCount := by decide
  obtain ⟨function, added, correct⟩ := functionBody_runs_as_evaluated singleParameter 0 skippingSum structured few
    ⟨default, default, none, []⟩
  obtain ⟨steps, last, reached, atReturn, _, _, result⟩ :=
    (correct Surroundings.none (fun _ => 5) ()).1 6 (some 7) _ rfl
  exact ⟨structured, few, function, added, steps, last, reached, atReturn, result 7 rfl⟩

def manyParameters : Declarations where
  functions := #[{ (default : FunctionDef) with parameters := List.range 32, returnType := .int }]

def returnsLast : List Stmt :=
  [.expression (integer (.returnExpr (some (integer (.localVar 31)))))]

/-- The register of the last of 32 parameters is already the one of the first variable, so that the first argument is
returned in its place. -/
theorem last_parameter_overwritten :
    blockIsStructured manyParameters false returnsLast = true ∧
    (∃ store, evalFunction Surroundings.none manyParameters 0 ((List.range 32).zip ((Instr.argumentRegisters 32).map
      fun register => .ofNat (100 + register))) () returnsLast = .done (some 132) store) ∧
    ((stmtCode manyParameters (.functionBody 0 returnsLast) ⟨default, default, none, []⟩).2.program.functions.map
      fun function => (run Surroundings.none function.code 36 (.entry (fun register => .ofNat (100 + register)) ())).map
        fun last => (function.code[last.place]?, last.read Reg.result)) = [some (some (.ret true), 101)] := by
  refine ⟨by decide, ⟨_, rfl⟩, by decide +kernel⟩

end FplCompiler.Codegen
