import FplCompiler.Proofs.OrderlyExpressions

/-!
The code of every statement keeps code generation orderly. So each function that is generated is joined, the data that it
refers to is part of the program, and there is one function for each body that is lowered; and what a function writes fits
if calls pass few arguments. Where temporaries are to be written once, what is assigned to has to be a variable, an element
or a member with a place of its own.
-/

namespace FplCompiler

def Analyzed.lowered (analyzed : Analyzed) : List FunctionId :=
  analyzed.topFunction.toList ++ analyzed.program.flatMap fun file => Typed.loweredBy file.statements

namespace Codegen

open Ir

open Typed (Expr Stmt IfClause WhenClause AssignOp)

variable {demand : Demand} {setting : Setting} {made : List String} {α : Type} {body : Gen Unit} {state : State}
  {table : Declarations} {makesNext : Bool} {function : Ir.Function} {limit : ArgumentLimit}
  {condition iterable : ExprCode} {single : Prop}

def Setting.inLoop (setting : Setting) (loop : Option LoopLabels) (makesNext : Bool) : Setting :=
  { setting with
    outer := setting.own ++ (setting.pending loop ++ setting.outer)
    own := []
    makesNext := makesNext }

theorem Labelled.inLoop (labelled : Labelled setting state) {labels : LoopLabels}
    (breaks : labels.breakLabel ∈ setting.own) (early : makesNext = true → labels.continueLabel = none)
    (continues : makesNext = false → ∃ next ∈ setting.own, labels.continueLabel = some next) :
    Labelled (setting.inLoop state.loop makesNext) (state.withLoop (some labels)) := by
  have none : (setting.inLoop state.loop makesNext).pending (some labels) = [] := by
    cases makesNext with
    | true => simp [Setting.pending, early]
    | false => rfl
  have same : sites (setting.inLoop state.loop makesNext) (state.withLoop (some labels)) = sites setting state := by
    simp only [sites, State.withLoop, none]
    rfl
  constructor
  case apart => exact same ▸ labelled.apart
  case handed => exact same ▸ labelled.handed
  case reached => exact same ▸ labelled.reached
  case breaks =>
    intro others given
    obtain rfl : labels = others := Option.some.inj given
    exact List.mem_append_left _ breaks
  case continues =>
    intro makes others given
    obtain rfl : labels = others := Option.some.inj given
    obtain ⟨next, member, same⟩ := continues makes
    exact ⟨next, List.mem_append_left _ member, same⟩
  case returns => exact List.mem_append_right _ (List.mem_append_right _ labelled.returns)

def Setting.withLabels (setting : Setting) (labels : List Label) : Setting :=
  { setting with own := labels ++ setting.own, known := labels ++ setting.known }

theorem Labelled.afterLoop {after : State} (labelled : Labelled setting state)
    (inner : Labelled (setting.inLoop state.loop makesNext) after) :
    Labelled (setting.withLabels ((setting.inLoop state.loop makesNext).pending after.loop))
        (after.withLoop state.loop) := by
  let labels := (setting.inLoop state.loop makesNext).pending after.loop
  have same : sites (setting.withLabels labels) (after.withLoop state.loop) =
      sites (setting.inLoop state.loop makesNext) after := by
    simp [sites, State.withLoop, labels, Setting.withLabels, Setting.inLoop, Setting.pending]
  refine ⟨same ▸ inner.apart, same ▸ inner.handed, fun label wanted => ?_, labelled.breaks, labelled.continues,
    labelled.returns⟩
  rw [same]
  rcases wanted with known | jumped
  · rcases List.mem_append.mp known with new | old
    · exact mem_sites (List.mem_append_left _ new)
    · exact inner.reached label (Or.inl old)
  · exact inner.reached label (Or.inr jumped)

/-- A body that is laid wherever the same registers are open to writes is laid as the body of a loop. -/
theorem Orderly.loops (orderly : Orderly demand setting state) {labels : LoopLabels}
    (entered : Labelled (setting.inLoop state.loop makesNext) (state.withLoop (some labels)))
    (lays : ∀ inner : Setting, inner.writable = setting.writable → Lays demand inner made body fun _ => inner) :
    let after := (body (state.withLoop (some labels))).2
    Orderly demand (setting.withLabels ((setting.inLoop state.loop makesNext).pending after.loop))
      (after.withLoop state.loop) ∧ Proceeds demand.linked made state (after.withLoop state.loop) := by
  obtain ⟨inner, follows⟩ := (lays (setting.inLoop state.loop makesNext) rfl).runs _
    (orderly.relabel entered rfl rfl rfl rfl rfl)
  refine ⟨inner.relabel (orderly.labels.afterLoop inner.labels) rfl rfl rfl rfl rfl, follows.name, follows.functions,
    follows.gains, follows.code, follows.homes, id, fun others given => ⟨others, given, rfl, fun _ => id⟩⟩

theorem lays_inLoop {breakLabel next : Label} (breaks : breakLabel ∈ setting.own) (continues : next ∈ setting.own)
    (steady : Steady demand made body) :
    Lays demand setting made (Gen.inLoop ⟨breakLabel, some next⟩ body) fun _ => setting := by
  refine ⟨fun state orderly => ?_⟩
  have entered : Labelled (setting.inLoop state.loop false) (state.withLoop (some ⟨breakLabel, some next⟩)) :=
    orderly.labels.inLoop breaks (by simp) fun _ => ⟨next, continues, rfl⟩
  exact orderly.loops entered fun inner _ => steady.lays inner

def nextPasses (labels : Option LoopLabels) : List Label :=
  (labels.bind LoopLabels.continueLabel).toList

theorem lays_inLoopMaking {breakLabel : Label} (breaks : breakLabel ∈ setting.own)
    (lays : ∀ inner : Setting, inner.writable = setting.writable → Lays demand inner made body fun _ => inner) :
    Lays demand setting made (Gen.inLoop ⟨breakLabel, none⟩ body) fun labels => setting.withLabels (nextPasses labels) := by
  refine ⟨fun state orderly => ?_⟩
  have entered : Labelled (setting.inLoop state.loop true) (state.withLoop (some ⟨breakLabel, none⟩)) :=
    orderly.labels.inLoop breaks (fun _ => rfl) (by simp)
  exact orderly.loops entered lays

theorem steady_whileLoop (neat : Neat demand condition)
    (steady : Steady demand made body) : Steady demand made (whileLoop condition body) := by
  refine ⟨fun setting => ?_⟩
  refine .bind lays_newLabel fun again => .bind lays_newLabel fun done => .bind lays_newLabel fun test => ?_
  refine .bind (lays_jump rfl (by simp)) fun _ => .bind (lays_place [test, done] setting.own rfl) fun _ => ?_
  refine .andThen (lays_inLoop (by simp) (by simp) steady) fun _ => ?_
  refine .bind (lays_place [] (done :: setting.own) rfl) fun _ => .bind (neat.branch (by simp) _) fun _ => ?_
  refine .bind (lays_jump rfl (by simp)) fun _ => ?_
  exact (lays_place [] setting.own rfl).forget fun _ => by constructor <;> simp +contextual

theorem steady_repeatLoop (neat : Neat demand condition)
    (steady : Steady demand made body) : Steady demand made (repeatLoop condition body) := by
  refine ⟨fun setting => ?_⟩
  refine .bind lays_newLabel fun again => .bind lays_newLabel fun done => .bind lays_newLabel fun test => ?_
  refine .bind (lays_place [test, done] setting.own rfl) fun _ => ?_
  refine .andThen (lays_inLoop (by simp) (by simp) steady) fun _ => ?_
  refine .bind (lays_place [] (done :: setting.own) rfl) fun _ => .bind (neat.branch (by simp) _) fun _ => ?_
  exact (lays_place [] setting.own rfl).forget fun _ => by constructor <;> simp +contextual

theorem lays_countedLoop {counter : Reg} (open_ : counter ∈ setting.writable) (limit : Reg) (op : AluOp) (step : Int32)
    (lays : ∀ inner : Setting, inner.writable = setting.writable → Lays demand inner made body fun _ => inner) :
    Lays demand setting made (countedLoop counter limit op step body) fun _ => setting := by
  refine .bind lays_newLabel fun again => .bind lays_newLabel fun done => .bind lays_newLabel fun test => ?_
  refine .bind (lays_jump rfl (by simp)) fun _ => .bind (lays_place [test, done] setting.own rfl) fun _ => ?_
  refine .andThen (lays_inLoopMaking (by simp) lays) fun labels => ?_
  -- What is left is the same whether the body has made a label or not.
  have rest : ∀ last : Setting, last.own = test :: done :: setting.own → again ∈ last.known → done ∈ last.known →
      (last.placing setting.own).Covers setting → Lays demand last [] (do
        Emit.add (.move counter (← Emit.aluImm .addI counter step))
        Emit.add (.label test)
        Emit.add (.branch op counter limit again)
        Emit.add (.jump done)
        Emit.add (.label done) : Gen Unit) fun _ => setting := by
    intro last own knowsAgain knowsDone covers
    refine .bind ((gives_aluImm ..).steady.lays _) fun _ => ?_
    refine .bind (lays_set rfl rfl (Or.inl (covers.writable counter open_))) fun _ => ?_
    refine .bind (lays_place [] (done :: setting.own) own) fun _ => ?_
    refine .bind (lays_jump rfl knowsAgain) fun _ => .bind (lays_jump rfl knowsDone) fun _ => ?_
    exact (lays_place [] setting.own rfl).forget fun _ => covers
  split
  · refine .bind (lays_place [] (test :: done :: setting.own) rfl) fun _ => rest _ rfl ?_ ?_ ?_
    · simp [Setting.withLabels]
    · simp [Setting.withLabels]
    · constructor <;> simp +contextual [Setting.withLabels]
  · rename_i absent
    have none : nextPasses labels = [] := by
      cases labels with
      | none => rfl
      | some labels =>
        obtain ⟨_, next⟩ := labels
        cases next with
        | none => rfl
        | some next => exact absurd rfl (absent _ next)
    rw [none]
    refine rest _ rfl (by simp [Setting.withLabels]) (by simp [Setting.withLabels]) ?_
    constructor <;> simp +contextual [Setting.withLabels]

theorem steady_forRange (symbol : SymbolId) {start stop : ExprCode} (startNeat : Neat demand start)
    (stopNeat : Neat demand stop) (op : AluOp) (steady : Steady demand made body) :
    Steady demand made (forRange demand.table symbol start stop op body) := by
  refine ⟨fun setting => .bind (lays_variableRegister ..) fun counter => .bind (startNeat.steady.lays _) fun _ => ?_⟩
  refine .bind (lays_set rfl rfl (by simp)) fun _ => .bind (stopNeat.steady.lays _) fun _ => ?_
  refine .bind ((gives_copy _).steady.lays _) fun _ => ?_
  exact (lays_countedLoop (by simp) _ _ _ fun inner _ => steady.lays inner).forget fun _ => by
    constructor <;> simp +contextual

theorem steady_forIndex (symbol : SymbolId) (count : Reg) {element : Reg → Gen Reg}
    (elements : ∀ index, Gives demand (element index)) (steady : Steady demand made body) :
    Steady demand made (forIndex demand.table symbol count element body) := by
  refine ⟨fun setting => .bind lays_newScratch fun index => .bind (lays_set rfl rfl (by simp)) fun _ => ?_⟩
  refine .bind (lays_variableRegister ..) fun home => ?_
  refine (lays_countedLoop (by simp) _ _ _ fun inner same => ?_).forget fun _ => by constructor <;> simp +contextual
  refine .bind ((elements _).steady.lays _) fun _ => .bind (lays_set rfl rfl (Or.inl ?_)) fun _ => steady.lays _
  simp [same]

def Iterates (table : Declarations) : Expr → Prop
  | .mk (.range _ _ _) _ _ => True
  | .mk _ _ (.object cls _) =>
    ∃ size get, iteration? table (table.classDef cls.id) = some (size, get) ∧ IsFunctionLabel table get.label
  | .mk _ _ type => type.element?.isSome

theorem steady_unlinked (absent : ¬ demand.linked) (value : α) : Steady demand made (pure value : Gen α) :=
  ⟨fun _ => ⟨fun state orderly => ⟨orderly,
    { (Proceeds.refl state : Proceeds demand.linked [] state state) with
      functions := fun linked => absurd linked absent }⟩⟩⟩

theorem steady_forArray (symbol : SymbolId) {type : Ty} (sequence : demand.linked → type.element?.isSome)
    (neat : Neat demand iterable) (steady : Steady demand made body) :
    Steady demand made (forArray demand.table symbol type iterable body) := by
  unfold forArray
  split
  · rename_i none
    exact steady_unlinked (fun linked => by simp [none] at sequence; exact sequence linked) ()
  · refine .bind neat.steady fun _ => .bind (gives_elementCount ..).steady fun _ => steady_forIndex _ _ (fun _ => ?_) steady
    exact .bind (gives_elementAddress ..).steady fun _ => gives_load ..

theorem steady_forObject (symbol : SymbolId) {cls : ClassDef}
    (iterates : demand.linked → ∃ size get, iteration? demand.table cls = some (size, get) ∧
      IsFunctionLabel demand.table get.label) (neat : Neat demand iterable)
    (steady : Steady demand made body) : Steady demand made (forObject demand.table symbol cls iterable body) := by
  unfold forObject
  split
  · rename_i none
    refine steady_unlinked (fun linked => ?_) ()
    obtain ⟨_, _, found, -⟩ := iterates linked
    simp [none] at found
  · rename_i size get found
    refine .bind neat.steady fun _ => .bind (gives_loadField ..).steady fun _ => steady_forIndex _ _ (fun _ => ?_) steady
    refine gives_call (fun linked => Or.inr ?_) (fun _ => Nat.le_trans (by simp [Reg.result]) demand.limit.result) _
    obtain ⟨_, _, same, declared⟩ := iterates linked
    cases found.symm.trans same
    exact declared

theorem steady_forLoop (symbol : SymbolId) {iterable : Expr} (iterates : demand.linked → Iterates demand.table iterable)
    (allowed : ∀ node ∈ iterable.within, demand.Allows node) (steady : Steady demand made body) :
    Steady demand made (forLoop demand.table symbol iterable body) := by
  unfold forLoop
  split
  · simp only [Typed.Expr.within, Typed.ExprShape.within, List.forall_mem_cons, List.forall_mem_append] at allowed
    exact steady_forRange symbol (neat_exprCode _ allowed.2.1) (neat_exprCode _ allowed.2.2) _ steady
  · rename_i shape _ cls arguments notRange
    refine steady_forObject symbol (fun linked => ?_) (neat_exprCode _ allowed) steady
    have given := iterates linked
    cases shape <;> first | exact given | exact absurd rfl (notRange _ _ _)
  · rename_i shape _ type notRange notObject
    refine steady_forArray symbol (fun linked => ?_) (neat_exprCode _ allowed) steady
    have given := iterates linked
    cases shape <;> cases type <;>
      first | exact given | exact absurd rfl (notRange _ _ _) | exact absurd rfl (notObject _ _)

def State.entering (state : State) (function : Ir.Function) : State :=
  { state with function := function, loop := none }

theorem Orderly.entering (supplied : demand.linked → Supplied demand.table state.program)
    (data : demand.linked → ∀ data ∈ setting.data, Supplies demand.table state.program data)
    (done : demand.bounded → ∀ function ∈ state.program.functions,
      Tidy demand.limit demand.single function ∧ function.Begins) (name : String) (returns : Bool) {code : Array Instr}
    (few : code = #[] ∨ code = #[.start]) :
    Orderly demand setting.ofFunction (state.entering { Function.empty name returns with code := code }) := by
  have one : sites setting.ofFunction (state.entering { Function.empty name returns with code := code }) =
      [Function.returnLabel] := by rcases few with rfl | rfl <;> rfl
  refine ⟨?_, fun linked => ⟨fun instr member => ?_, data linked, supplied linked⟩, ?_, fun bounded =>
    ⟨tidy_new name returns few, done bounded, List.forall_mem_nil _⟩⟩
  · constructor
    case apart => simp [one]
    case handed => rw [one]; exact List.forall_mem_singleton.mpr Nat.one_pos
    case reached =>
      intro label wanted
      rcases wanted with known | jumped
      · cases known
      · rcases few with rfl | rfl <;> cases jumped
    case breaks => exact fun _ given => by cases given
    case continues => exact fun _ _ given => by cases given
    case returns => exact List.mem_singleton.mpr rfl
  · rcases few with rfl | rfl
    · cases Array.mem_toList_iff.mpr member
    · obtain rfl : instr = .start := by simpa [State.entering] using member
      trivial
  · exact ⟨by simp [State.entering, Function.empty], by simp [State.entering, Function.empty], List.forall_mem_nil _⟩

def finished (function : Ir.Function) : Ir.Function :=
  { function with code := (function.code.push (.label Function.returnLabel)).push (.ret function.returnsValue) }

theorem Labelled.joined (labelled : Labelled setting.ofFunction state) : Joined (finished state.function) := by
  have labels : placedLabels (finished state.function).code = sites setting.ofFunction state := by
    simp [finished, placedLabels_push, placed?, sites, Setting.ofFunction, Setting.pending]
  have jumps : targets (finished state.function).code = targets state.function.code := by
    simp [finished, targets_push, Instr.target?]
  refine ⟨labels ▸ labelled.apart, labels ▸ labelled.handed, ?_⟩
  rw [labels, jumps]
  exact fun label jumped => labelled.reached label (Or.inr jumped)

theorem Referring.refersFinished {data : List StaticData} (links : Referring table data state) :
    ∀ instr ∈ (finished state.function).code, Refers table state.program instr := by
  intro instr member
  rcases Array.mem_push.mp member with early | rfl
  · rcases Array.mem_push.mp early with old | rfl
    · exact links.refers instr old
    · trivial
  · trivial

theorem Tidy.finished (tidy : Tidy limit single function) (longer : [Instr.start] <+: function.code.toList) :
    Tidy limit single (finished function) ∧ (Codegen.finished function).Begins := by
  have labelled : Tidy limit single { function with code := function.code.push (.label Function.returnLabel) } :=
    tidy.pushWritable (fun _ given => by cases given) (by simp)
  have whole : Tidy limit single (Codegen.finished function) :=
    labelled.pushWritable (fun _ given => by cases given) (by simp)
  refine ⟨whole, whole.begins (longer.trans ⟨[.label Function.returnLabel, .ret function.returnsValue], ?_⟩)⟩
  simp [Codegen.finished]

def withFunction (program : Ir.Program) (function : Ir.Function) : Ir.Program :=
  { program with functions := program.functions ++ [function] }

theorem inFunction_apply (function : Ir.Function) (step : Gen Unit) (state : State) :
    Gen.inFunction function step state = ((),
      let inner := (step ((state.entering function).add .start)).2
      { inner with
        program := withFunction inner.program (finished inner.function)
        function := state.function
        loop := state.loop }) :=
  rfl

theorem Supplied.withFunction {program : Ir.Program} (supplied : Supplied table program)
    (joined : Joined function) (refers : ∀ instr ∈ function.code, Refers table program instr) :
    Supplied table (withFunction program function) where
  done other member := by
    rcases List.mem_append.mp member with old | new
    · exact supplied.done other old
    · rw [List.mem_singleton.mp new]
      exact ⟨joined, refers⟩
  classes := supplied.classes
  classesApart := supplied.classesApart
  tables := supplied.tables
  tablesApart := supplied.tablesApart

theorem steady_inFunction (name : String) (returns : Bool) {step : Gen Unit} (steady : Steady demand made step) :
    Steady demand (made ++ [name]) (Gen.inFunction (.empty name returns) step) := by
  refine ⟨fun setting => ⟨fun state orderly => ?_⟩⟩
  have entered : Orderly demand setting.ofFunction ((state.entering (.empty name returns)).add .start) :=
    .entering (fun linked => (orderly.links linked).supplied) (fun linked => (orderly.links linked).data)
      (fun bounded => (orderly.writes bounded).done) name returns (Or.inr rfl)
  obtain ⟨inner, follows⟩ := (steady.lays _).runs _ entered
  rw [inFunction_apply]
  generalize (step ((state.entering (.empty name returns)).add .start)).2 = after at inner follows
  have gains : Gains state.program (withFunction after.program (finished after.function)) :=
    ⟨follows.gains.strings, follows.gains.classes, follows.gains.tables⟩
  -- The function around is left as it was, in a program that has gained data and the finished function.
  refine ⟨⟨orderly.labels.same rfl rfl rfl, fun linked => ?_, orderly.housed, fun bounded => ?_⟩, ?_⟩
  · have links := orderly.links linked
    have innerLinks := inner.links linked
    exact ⟨fun instr member => (links.refers instr member).mono gains,
      fun datum member => (links.data datum member).mono gains,
      innerLinks.supplied.withFunction inner.labels.joined innerLinks.refersFinished⟩
  · have writes := orderly.writes bounded
    have innerWrites := inner.writes bounded
    exact ⟨writes.tidy, List.forall_mem_append.mpr ⟨innerWrites.done, List.forall_mem_singleton.mpr
      (innerWrites.tidy.finished follows.code)⟩, writes.writable⟩
  · have named : (finished after.function).name = name := follows.name
    refine ⟨rfl, fun linked => ?_, gains, List.prefix_rfl, fun _ _ => id, id,
      fun labels given => ⟨labels, given, rfl, fun _ => id⟩⟩
    show (after.program.functions ++ [finished after.function]).map Function.name = _
    rw [List.map_append, follows.functions linked, List.map_singleton, named, List.append_assoc]
    rfl

theorem steady_functionCode (id : FunctionId) (steady : Steady demand made body) :
    Steady demand (made ++ [(demand.table.function id).label]) (functionCode demand.table id body) := by
  refine .bind (steady_note _) fun _ => steady_inFunction _ _ (.bind (.forM fun entry _ => ⟨fun _ => ?_⟩) fun _ => steady)
  exact .bind (lays_variableRegister ..) fun _ => (lays_set rfl rfl (by simp)).forget fun _ => by
    constructor <;> simp +contextual

theorem steady_describeClass (id : ClassId) : Steady demand [] (Gen.describeClass (demand.table.classDef id)) :=
  ⟨fun _ => (lays_describeClass id).forget fun _ => by constructor <;> simp +contextual⟩

def IsSettable (table : Declarations) (target : Expr) : Prop :=
  match target.shape with
  | .localVar _ | .globalVar _ | .index _ _ => True
  | .unwrap operand => ∃ symbol, operand.shape = .localVar symbol
  | .member _ field => ∀ cls offset, (table.symbol field).kind ≠ .inlineField cls offset
  | _ => False

theorem lays_settablePlace {target : Expr} (allowed : ∀ node ∈ target.within, demand.Allows node)
    (settable : demand.single → IsSettable demand.table target) :
    Lays demand setting [] (exprCode demand.table target).place fun place => setting.writing place.registers := by
  by_cases once : demand.single
  · have isSettable := settable once
    obtain ⟨shape, span, type⟩ := target
    simp only [Typed.Expr.within, List.forall_mem_cons] at allowed
    cases shape <;> simp only [IsSettable, Typed.Expr.shape] at isSettable
    case localVar symbol => exact .bind (lays_variableRegister ..) fun _ => .pure (.refl _)
    case globalVar symbol => exact lays_globalVarPlace ..
    case index array index =>
      simp only [Typed.ExprShape.within, List.forall_mem_append] at allowed
      exact lays_indexPlace (neat_exprCode array allowed.2.1) (neat_exprCode index allowed.2.2)
    case unwrap operand =>
      obtain ⟨_, operandSpan, operandType⟩ := operand
      obtain ⟨symbol, rfl⟩ := isSettable
      -- The value of a local variable is its register.
      exact .bind (lays_variableRegister ..) fun _ => .pure (.refl _)
    case member object field => exact lays_memberPlace (neat_exprCode object allowed.2) isSettable
  · refine ⟨fun state orderly => ?_⟩
    obtain ⟨later, follows⟩ := ((neat_exprCode target allowed).place setting).runs state orderly
    exact ⟨later.adding (fun _ => List.forall_mem_nil _) (List.forall_mem_nil _) fun _ register member =>
      (later.housed.held register (List.mem_append_left _ member)).writable once, follows⟩

theorem steady_assign (op : AssignOp) {target value : ExprCode}
    (lays : ∀ setting, Lays demand setting [] target.place fun place => setting.writing place.registers)
    (neat : Neat demand value) : Steady demand [] (assign op target value) := by
  refine ⟨fun setting => ?_⟩
  cases op with
  | replace =>
    refine .bind (neat.steady.lays _) fun _ => .bind (lays _) fun place => ?_
    exact (lays_write (by simp +contextual) _).forget fun _ => by constructor <;> simp +contextual
  | add | subtract =>
    refine .bind (lays _) fun place => .bind (lays_read (by simp +contextual)) fun _ =>
      .bind (neat.steady.lays _) fun _ => ?_
    refine .bind ((gives_alu ..).steady.lays _) fun _ => ?_
    exact (lays_write (by simp +contextual) _).forget fun _ => by constructor <;> simp +contextual

theorem steady_runRoutine (routine : Routine) {argument : ExprCode} (neat : Neat demand argument) :
    Steady demand [] (runRoutine routine argument) :=
  .bind neat.steady fun _ => .bind (gives_callRoutine _ (by simp [Reg.result]) _).steady fun _ => .pure _

theorem steady_print {argument : Expr} (neat : Neat demand (exprCode demand.table argument)) :
    Steady demand [] (print demand.table argument) := by
  unfold print
  split
  · exact steady_runRoutine _ neat
  · exact .pure _

theorem lays_ifClause {condition : Option ExprCode} (neat : ∀ code ∈ condition, Neat demand code)
    (steady : Steady demand made body) {done : Label} (known : done ∈ setting.known) :
    Lays demand setting made (ifClause condition body done) fun _ => setting := by
  cases condition with
  | none => exact steady.lays setting
  | some condition =>
    refine .bind lays_newLabel fun next => .bind ((neat condition rfl).branch (by simp) _) fun _ => ?_
    refine .andThen (steady.lays _) fun _ => .bind (lays_jump rfl (by simp [known])) fun _ => ?_
    exact (lays_place [] setting.own rfl).forget fun _ => by constructor <;> simp +contextual

theorem lays_branchOnCase (isString : Bool) (subject value : Reg) {target : Label} (known : target ∈ setting.known) :
    Lays demand setting [] (branchOnCase isString subject value target) fun _ => setting := by
  cases isString with
  | true => exact .bind ((gives_compareStrings ..).steady.lays _) fun _ => lays_jump rfl known
  | false => exact lays_jump rfl known

theorem lays_whenClause (isString : Bool) (subject : Reg) {candidates : List ExprCode}
    (neat : ∀ code ∈ candidates, Neat demand code) (steady : Steady demand made body) {done : Label}
    (known : done ∈ setting.known) :
    Lays demand setting made (whenClause isString subject candidates body done) fun _ => setting := by
  unfold whenClause
  split
  · exact .andThen (steady.lays _) fun _ => lays_jump rfl known
  refine .bind lays_newLabel fun chosen => .bind lays_newLabel fun next =>
    .bind (.forM fun candidate member => ?_) fun _ => ?_
  · exact .bind ((neat candidate member).steady.lays _) fun _ => lays_branchOnCase _ _ _ (by simp)
  refine .bind (lays_jump rfl (by simp)) fun _ => .bind (lays_place [next] setting.own rfl) fun _ => ?_
  refine .andThen (steady.lays _) fun _ => .bind (lays_jump rfl (by simp [known])) fun _ => ?_
  exact (lays_place [] setting.own rfl).forget fun _ => by constructor <;> simp +contextual

structure Demand.Takes (demand : Demand) (stmt : Stmt) : Prop where
  allowed : ∀ node ∈ Typed.exprsWithin stmt.parts, demand.Allows node
  settable : demand.single → ∀ target ∈ stmt.target?, IsSettable demand.table target
  iterates : demand.linked → ∀ symbol iterable body, stmt = .forLoop symbol iterable body → Iterates demand.table iterable

namespace Demand.Takes

variable {stmt : Stmt} {expr : Expr}

theorem within (takes : demand.Takes stmt) (part : expr ∈ stmt.parts) : ∀ node ∈ expr.within, demand.Allows node :=
  fun node inside => takes.allowed node (Typed.mem_exprsWithin part inside)

theorem neat (takes : demand.Takes stmt) (part : expr ∈ stmt.parts) : Neat demand (exprCode demand.table expr) :=
  neat_exprCode expr (takes.within part)

end Demand.Takes

def labels (table : Declarations) (ids : List FunctionId) : List String :=
  ids.map fun id => (table.function id).label

theorem labels_append (first second : List FunctionId) :
    labels table (first ++ second) = labels table first ++ labels table second :=
  List.map_append

mutual

theorem steady_stmtCode : ∀ stmt : Stmt, (∀ inner ∈ stmt.within, demand.Takes inner) →
    Steady demand (labels demand.table stmt.lowered) (stmtCode demand.table stmt)
  | .expression expr, taken => .bind ((taken _ (Stmt.mem_within_self _)).neat List.mem_cons_self).steady fun _ => .pure _
  | .assign op target value, taken => by
      have own := taken _ (Stmt.mem_within_self _)
      exact steady_assign op (fun _ => lays_settablePlace (own.within List.mem_cons_self) fun once =>
        own.settable once target rfl) (own.neat (List.mem_cons_of_mem _ List.mem_cons_self))
  | .declare symbol (some value), taken => by
      refine .bind ((taken _ (Stmt.mem_within_self _)).neat List.mem_cons_self).steady fun _ => ?_
      exact ⟨fun setting => .bind (lays_globalVarPlace ..) fun _ => (lays_write (by simp +contextual) _).forget fun _ => by
        constructor <;> simp +contextual⟩
  | .declare _ none, _ => .pure _
  | .free operand, taken => steady_runRoutine .free ((taken _ (Stmt.mem_within_self _)).neat List.mem_cons_self)
  | .print arguments, taken => .forM fun _ member => steady_print ((taken _ (Stmt.mem_within_self _)).neat member)
  | .ifChain clauses, taken => by
      obtain ⟨own, inside⟩ := List.forall_mem_cons.mp taken
      refine ⟨fun setting => .bind lays_newLabel fun done => ?_⟩
      refine .andThen (lays_ifClausesCode clauses (by simp) own.allowed inside) fun _ => ?_
      exact (lays_place [] setting.own rfl).forget fun _ => by constructor <;> simp +contextual
  | .whileLoop condition body, taken => by
      obtain ⟨own, inside⟩ := List.forall_mem_cons.mp taken
      exact steady_whileLoop (own.neat List.mem_cons_self) (steady_blockCode body inside)
  | .repeatLoop condition body, taken => by
      obtain ⟨own, inside⟩ := List.forall_mem_cons.mp taken
      exact steady_repeatLoop (own.neat List.mem_cons_self) (steady_blockCode body inside)
  | .forLoop symbol iterable body, taken => by
      obtain ⟨own, inside⟩ := List.forall_mem_cons.mp taken
      exact steady_forLoop symbol (fun linked => own.iterates linked symbol iterable body rfl)
        (own.within List.mem_cons_self) (steady_blockCode body inside)
  | .whenCases subject clauses, taken => by
      obtain ⟨own, inside⟩ := List.forall_mem_cons.mp taken
      refine ⟨fun setting => .bind ((own.neat List.mem_cons_self).steady.lays _) fun value => ?_⟩
      refine .bind lays_newLabel fun done => .andThen (lays_whenClausesCode clauses _ value (by simp)
        (List.forall_mem_append.mp own.allowed).2 inside) fun _ => ?_
      exact (lays_place [] setting.own rfl).forget fun _ => by constructor <;> simp +contextual
  | .functionBody function body, taken => by
      rw [Stmt.lowered, labels_append]
      exact steady_functionCode function (steady_blockCode body (List.forall_mem_cons.mp taken).2)
  | .classBody classId constructor body methods, taken => by
      obtain ⟨inBody, inMethods⟩ := List.forall_mem_append.mp (List.forall_mem_cons.mp taken).2
      have constructed := steady_functionCode constructor (steady_blockCode body inBody)
      rw [Stmt.lowered, labels_append, labels_append]
      exact .bind (steady_describeClass classId) fun _ => constructed.both (steady_blockCode methods inMethods)
  | .missing, _ | .error _, _ => .pure _

theorem steady_blockCode : ∀ stmts : List Stmt, (∀ inner ∈ Typed.stmtsWithin stmts, demand.Takes inner) →
    Steady demand (labels demand.table (Typed.loweredBy stmts)) (blockCode demand.table stmts)
  | [], _ => .pure _
  | stmt :: rest, taken => by
      rw [Typed.stmtsWithin, List.forall_mem_append] at taken
      rw [Typed.loweredBy, labels_append]
      exact (steady_stmtCode stmt taken.1).both (steady_blockCode rest taken.2)

theorem lays_ifClausesCode {setting : Setting} {done : Label} : ∀ clauses : List IfClause, done ∈ setting.known →
    (∀ node ∈ Typed.exprsWithin (clauses.filterMap IfClause.condition), demand.Allows node) →
      (∀ inner ∈ Typed.clausesWithin clauses, demand.Takes inner) →
        Lays demand setting (labels demand.table (Typed.loweredByClauses clauses)) (ifClausesCode demand.table done clauses)
          fun _ => setting
  | [], _, _, _ => .pure (.refl _)
  | .mk condition body :: rest, known, allowed, taken => by
      rw [Typed.clausesWithin, List.forall_mem_append] at taken
      rw [Typed.loweredByClauses, labels_append]
      have split : (∀ node ∈ Typed.optionWithin condition, demand.Allows node) ∧
          ∀ node ∈ Typed.exprsWithin (rest.filterMap IfClause.condition), demand.Allows node := by
        cases condition with
        | none => exact ⟨by simp [Typed.optionWithin], allowed⟩
        | some condition => exact List.forall_mem_append.mp allowed
      exact (lays_ifClause (neat_optionCode condition split.1) (steady_blockCode body taken.1) known).both
        fun _ => lays_ifClausesCode rest known split.2 taken.2

theorem lays_whenClausesCode {setting : Setting} {done : Label} : ∀ (clauses : List WhenClause) (isString : Bool)
    (subject : Reg), done ∈ setting.known →
    (∀ node ∈ Typed.exprsWithin (clauses.flatMap WhenClause.values), demand.Allows node) →
      (∀ inner ∈ Typed.casesWithin clauses, demand.Takes inner) →
        Lays demand setting (labels demand.table (Typed.loweredByCases clauses))
          (whenClausesCode demand.table isString subject done clauses) fun _ => setting
  | [], _, _, _, _, _ => .pure (.refl _)
  | .mk candidates body :: rest, isString, subject, known, allowed, taken => by
      rw [Typed.casesWithin, List.forall_mem_append] at taken
      rw [Typed.loweredByCases, labels_append]
      rw [List.flatMap_cons, Typed.exprsWithin_append, List.forall_mem_append] at allowed
      have first := lays_whenClause isString subject (neat_exprCodes candidates allowed.1)
        (steady_blockCode body taken.1) known
      exact first.both fun _ => lays_whenClausesCode rest isString subject known allowed.2 taken.2

end

theorem steady_files {files : List Typed.FileTree}
    (taken : ∀ file ∈ files, ∀ inner ∈ Typed.stmtsWithin file.statements, demand.Takes inner) :
    Steady demand (labels demand.table (files.flatMap fun file => Typed.loweredBy file.statements))
      (files.forM (fileCode demand.table)) := by
  induction files with
  | nil => exact .pure _
  | cons file rest ih =>
    rw [List.flatMap_cons, labels_append]
    have first : Steady demand (labels demand.table (Typed.loweredBy file.statements)) (fileCode demand.table file) :=
      .bind (steady_note _) fun _ => steady_blockCode _ (taken file List.mem_cons_self)
    exact first.both (ih fun file member => taken file (List.mem_cons_of_mem _ member))

def startState (analyzed : Analyzed) : State where
  program := { globalsSize := analyzed.globalsSize }
  function := .empty Analysis.topName false
  loop := none
  trace := []

theorem supplied_start (analyzed : Analyzed) : Supplied analyzed.table (startState analyzed).program :=
  ⟨fun _ member => (by cases member), fun _ member => (by cases member), List.nodup_nil, fun _ member => (by cases member),
    List.nodup_nil⟩

def topSetting : Setting :=
  ⟨[], [], [], [], [], [], false⟩

/-- The functions generated for a program whose statements meet a demand are supplied and named as it asks, and write
their registers as it asks. -/
theorem generate_kept (analyzed : Analyzed) (same : demand.table = analyzed.table)
    (taken : ∀ stmt ∈ analyzed.program.statements, demand.Takes stmt) :
    (demand.linked → Supplied analyzed.table (generate analyzed).program ∧
      (generate analyzed).program.functions.map Function.name = labels analyzed.table analyzed.lowered) ∧
    (demand.bounded → ∀ function ∈ (generate analyzed).program.functions,
      Tidy demand.limit demand.single function ∧ function.Begins) := by
  have files := steady_files fun file member inner within => taken inner (List.mem_flatMap.mpr ⟨file, member, within⟩)
  have entered : ∀ name code, code = #[] ∨ code = #[Instr.start] → Orderly demand topSetting.ofFunction
      ((startState analyzed).entering { Function.empty name false with code := code }) := fun name code few =>
    .entering (fun _ => same ▸ supplied_start analyzed) (fun _ => by simp [topSetting]) (fun _ => by simp [startState]) name
      false few
  rw [same] at files
  change (demand.linked → Supplied analyzed.table (programCode analyzed (startState analyzed)).2.program ∧
    (programCode analyzed (startState analyzed)).2.program.functions.map Function.name = _) ∧
    (demand.bounded → ∀ function ∈ (programCode analyzed (startState analyzed)).2.program.functions, _)
  unfold programCode Analyzed.lowered
  cases analyzed.topFunction with
  | none =>
    obtain ⟨orderly, follows⟩ := (files.lays _).runs _ (entered Analysis.topName #[] (Or.inl rfl))
    exact ⟨fun linked => ⟨same ▸ (orderly.links linked).supplied, follows.functions linked⟩,
      fun bounded => (orderly.writes bounded).done⟩
  | some id =>
    let begun := ((startState analyzed).entering (.empty (analyzed.table.function id).label false)).add .start
    obtain ⟨orderly, follows⟩ := (files.lays _).runs begun (entered _ #[.start] (Or.inr rfl))
    generalize run : (analyzed.program.forM (fileCode analyzed.table) begun).2 = after at orderly follows
    have result : ((do
        modify fun state => { state with function := .empty (analyzed.table.function id).label false }
        Emit.add .start
        analyzed.program.forM (fileCode analyzed.table)
        Gen.finishFunction
        modify fun state => { state with program :=
          { state.program with functions := state.function :: state.program.functions } } : Gen Unit)
        (startState analyzed)).2.program =
      { after.program with functions := finished after.function :: after.program.functions } := by
      rw [← run]
      rfl
    rw [result]
    have named : (finished after.function).name = (analyzed.table.function id).label := follows.name
    refine ⟨fun linked => ⟨?_, ?_⟩, fun bounded => List.forall_mem_cons.mpr
      ⟨(orderly.writes bounded).tidy.finished follows.code, (orderly.writes bounded).done⟩⟩
    · have links := orderly.links linked
      have supplied := links.supplied
      rw [← same]
      exact ⟨List.forall_mem_cons.mpr ⟨⟨orderly.labels.joined, links.refersFinished⟩, supplied.done⟩,
        supplied.classes, supplied.classesApart, supplied.tables, supplied.tablesApart⟩
    · rw [List.map_cons, named, follows.functions linked]
      rfl

structure Fits (limit : ArgumentLimit) (single : Prop) (table : Declarations) (stmt : Stmt) : Prop where
  few : ∀ part ∈ Typed.exprsWithin stmt.parts, part.shape.passed ≤ limit.count
  settable : single → ∀ target ∈ stmt.target?, IsSettable table target

theorem generate_tidy {analyzed : Analyzed}
    (fits : ∀ stmt ∈ analyzed.program.statements, Fits limit single analyzed.table stmt) :
    ∀ function ∈ (generate analyzed).program.functions, Tidy limit single function ∧ function.Begins := by
  let demand : Demand := ⟨analyzed.table, limit, single, True, False⟩
  have taken : ∀ stmt ∈ analyzed.program.statements, demand.Takes stmt := fun stmt member =>
    ⟨fun node within => ⟨fun _ => (fits stmt member).few node within, False.elim⟩, (fits stmt member).settable, False.elim⟩
  exact (generate_kept analyzed rfl taken).2 trivial

structure IsLowered (table : Declarations) (stmt : Stmt) : Prop where
  named : ∀ node ∈ Typed.exprsWithin stmt.parts, IsNamed table node
  iterates : ∀ symbol iterable body, stmt = .forLoop symbol iterable body → Iterates table iterable

theorem generate_supplied (analyzed : Analyzed)
    (lowered : ∀ stmt ∈ analyzed.program.statements, IsLowered analyzed.table stmt) :
    Supplied analyzed.table (generate analyzed).program ∧
      (generate analyzed).program.functions.map Function.name = labels analyzed.table analyzed.lowered := by
  let demand : Demand := ⟨analyzed.table, ⟨Reg.result, Nat.le_refl _, by decide⟩, False, False, True⟩
  have taken : ∀ stmt ∈ analyzed.program.statements, demand.Takes stmt := fun stmt member =>
    ⟨fun node within => ⟨False.elim, fun _ => (lowered stmt member).named node within⟩, False.elim,
      fun _ => (lowered stmt member).iterates⟩
  exact (generate_kept analyzed rfl taken).1 trivial

end Codegen

end FplCompiler
