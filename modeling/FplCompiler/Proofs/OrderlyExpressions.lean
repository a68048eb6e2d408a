import FplCompiler.Proofs.OrderlySteps
import FplCompiler.Proofs.TypedTree

/-! The code of every expression keeps code generation orderly. -/

namespace FplCompiler.Codegen

open Ir

open Typed (Expr ExprShape Fill)

variable {demand : Demand} {setting : Setting} {α : Type} {state : State} {operand right left object : ExprCode}
  {arguments : List ExprCode} {target label breakLabel : Label} {type : Ty} {branch : Label → Bool → Gen Unit}
  {value : Gen Reg} {id : FunctionId} {place : Place}

def Place.registers : Place → List Reg
  | .register home => [home]
  | _ => []

def LaysBranch (demand : Demand) (branch : Label → Bool → Gen Unit) : Prop :=
  ∀ {setting : Setting} {target : Label}, target ∈ setting.known → ∀ expected,
    Lays demand setting [] (branch target expected) fun _ => setting

structure Neat (demand : Demand) (code : ExprCode) : Prop where
  value : Gives demand code.value
  branch : LaysBranch demand code.branch
  place : ∀ setting, Lays demand setting [] code.place fun place => setting.holding place.registers

theorem lays_read (held : ∀ register ∈ place.registers, register ∈ setting.held) :
    Lays demand setting [] place.read fun register => setting.holding [register] := by
  cases place with
  | register home => exact .pure (by constructor <;> simp_all [Place.registers])
  | memory size base offset => exact (gives_load ..).lays _
  | field size base ref => exact (gives_loadField ..).lays _

theorem lays_write (open_ : ∀ register ∈ place.registers, register ∈ setting.writable) (value : Reg) :
    Lays demand setting [] (place.write value) fun _ => setting := by
  cases place with
  | register home => exact lays_set rfl rfl (Or.inl (open_ home (by simp [Place.registers])))
  | memory size base offset => exact (steady_add rfl).lays _
  | field size base ref => exact (steady_add rfl).lays _

namespace Neat

theorem ofValue (gives : Gives demand value) : Neat demand (.ofValue value) where
  value := gives
  branch known expected := (gives.steady.lays _).bind fun _ => lays_branchOn _ _ _ known expected
  place setting := (gives.lays setting).bind fun _ => .pure (.refl _)

theorem ofPlace {place : Gen Place}
    (lays : ∀ setting, Lays demand setting [] place fun place => setting.holding place.registers) :
    Neat demand (.ofPlace place) := by
  have value : Neat demand (.ofValue (do (← place).read)) :=
    ofValue ⟨fun setting => (lays setting).bind fun place => (lays_read (by simp +contextual)).forget fun _ => by
      constructor <;> simp +contextual⟩
  exact ⟨value.value, value.branch, lays⟩

theorem ofCondition (gives : Gives demand value) (branches : LaysBranch demand branch) :
    Neat demand (.ofCondition value branch) :=
  ⟨gives, branches, (ofValue gives).place⟩

theorem ofBranch (branches : LaysBranch demand branch) : Neat demand (.ofBranch branch) := by
  refine ofCondition ⟨fun setting => ?_⟩ branches
  refine .bind lays_newScratch fun result => .bind lays_newLabel fun skip => ?_
  refine .bind (lays_set rfl rfl (by simp)) fun _ => .bind (branches (by simp) _) fun _ => ?_
  refine .bind (lays_set rfl rfl (by simp)) fun _ => .bind (lays_place [] setting.own rfl) fun _ => ?_
  exact .pure (by constructor <;> simp +contextual)

theorem steady {code : ExprCode} (neat : Neat demand code) : Steady demand [] code.value :=
  neat.value.steady

end Neat

theorem length_values (codes : List ExprCode) (state : State) : (values codes state).1.length = codes.length := by
  unfold values
  induction codes generalizing state with
  | nil => rfl
  | cons code rest ih =>
    rw [List.mapM_cons, bind_apply]
    exact congrArg (· + 1) (ih _)

theorem gives_ofValues {codes : List ExprCode} (neat : ∀ code ∈ codes, Neat demand code) {next : List Reg → Gen Reg}
    (second : ∀ registers : List Reg, registers.length = codes.length → Gives demand (next registers)) :
    Gives demand (values codes >>= next) := by
  have first : Steady demand [] (values codes) := .mapM fun code member => (neat code member).steady
  refine ⟨fun setting => ⟨fun state orderly => ?_⟩⟩
  obtain ⟨middle, follows⟩ := (first.lays setting).runs state orderly
  obtain ⟨last, lastFollows⟩ := ((second _ (length_values codes state)).lays setting).runs _ middle
  exact ⟨last, follows.trans lastFollows⟩

theorem gives_elementCount (type : Ty) (sequence : Reg) : Gives demand (elementCount type sequence) := by
  cases type <;> first | exact gives_constant _ | exact gives_load ..

theorem gives_elementAddress (size : Nat) (sequence index count : Reg) :
    Gives demand (elementAddress size sequence index count) :=
  .bind (gives_alu ..).steady fun _ => gives_alu ..

theorem lays_indexPlace {sequenceType : Ty} {sequence index : ExprCode} (neat : Neat demand sequence)
    (indexNeat : Neat demand index) :
    Lays demand setting [] (indexPlace type sequenceType sequence index) fun place => setting.writing place.registers := by
  refine .bind (neat.steady.lays _) fun _ => .bind (indexNeat.steady.lays _) fun _ => ?_
  refine .bind ((gives_elementCount ..).steady.lays _) fun _ => ?_
  exact .bind ((gives_elementAddress ..).steady.lays _) fun _ => .pure (.refl _)

theorem lays_memberPlace (neat : Neat demand object) {member : SymbolId}
    (apart : ∀ cls offset, (demand.table.symbol member).kind ≠ .inlineField cls offset) :
    Lays demand setting [] (memberPlace demand.table type object member) fun place => setting.writing place.registers := by
  refine .bind (neat.steady.lays _) fun _ => ?_
  split
  · exact .pure (.refl _)
  · exact .pure (.refl _)
  · rename_i kind
    exact absurd kind (apart _ _)
  · exact lays_zero (.refl _)

theorem neat_member (neat : Neat demand object) (member : SymbolId) :
    Neat demand (.ofPlace (memberPlace demand.table type object member)) := by
  refine .ofPlace fun setting => ?_
  by_cases inline : ∃ cls offset, (demand.table.symbol member).kind = .inlineField cls offset
  · obtain ⟨cls, offset, kind⟩ := inline
    simp only [memberPlace, kind]
    exact .bind (neat.steady.lays _) fun _ => .bind ((gives_aluImm ..).lays _) fun _ => .pure (.refl _)
  · refine (lays_memberPlace neat fun cls offset kind => inline ⟨cls, offset, kind⟩).forget fun _ => ?_
    constructor <;> simp +contextual

theorem lays_globalVarPlace (type : Ty) (symbol : SymbolId) :
    Lays demand setting [] (globalVarPlace demand.table type symbol) fun place => setting.writing place.registers := by
  unfold globalVarPlace
  split
  · exact .pure (.refl _)
  · exact .bind (lays_variableRegister ..) fun _ => .pure (.refl _)

theorem gives_compareStrings (left right : Reg) : Gives demand (Gen.compareStrings left right) :=
  gives_callRoutine _ (by simp [Reg.result]) _

theorem gives_stringOrder (leftNeat : Neat demand left) (rightNeat : Neat demand right) :
    Gives demand (stringOrder left right) :=
  .bind leftNeat.steady fun _ => .bind rightNeat.steady fun _ => gives_compareStrings ..

theorem neat_binaryCode (op : AluOp) (leftNeat : Neat demand left) (rightNeat : Neat demand right) :
    Neat demand (binaryCode op left right) := by
  have value : Gives demand (binaryValue op left right) :=
    .bind leftNeat.steady fun _ => .bind rightNeat.steady fun _ => gives_alu ..
  have order := gives_stringOrder leftNeat rightNeat
  simp only [binaryCode]
  split
  · refine .ofCondition (.bind order.steady fun _ => gives_alu ..) fun known expected => ?_
    exact .bind (order.steady.lays _) fun _ => lays_branchOn _ _ _ known expected
  · refine .ofCondition value fun known expected => ?_
    exact .bind (leftNeat.steady.lays _) fun _ => .bind (rightNeat.steady.lays _) fun _ =>
      lays_branchOn _ _ _ known expected
  · exact .ofValue value

theorem lays_branchAnd (leftNeat : Neat demand left) (rightNeat : Neat demand right)
    (known : target ∈ setting.known) (expected : Bool) :
    Lays demand setting [] (branchAnd left right target expected) fun _ => setting := by
  cases expected with
  | true =>
    refine .bind lays_newLabel fun skip => .bind (leftNeat.branch (by simp) _) fun _ => ?_
    refine .bind (rightNeat.branch (by simp [known]) _) fun _ => ?_
    exact (lays_place [] setting.own rfl).forget fun _ => by constructor <;> simp +contextual
  | false => exact .bind (leftNeat.branch known _) fun _ => rightNeat.branch known _

theorem lays_branchOr (leftNeat : Neat demand left) (rightNeat : Neat demand right)
    (known : target ∈ setting.known) (expected : Bool) :
    Lays demand setting [] (branchOr left right target expected) fun _ => setting := by
  cases expected with
  | true => exact .bind (leftNeat.branch known _) fun _ => rightNeat.branch known _
  | false =>
    refine .bind lays_newLabel fun skip => .bind (leftNeat.branch (by simp) _) fun _ => ?_
    refine .bind (rightNeat.branch (by simp [known]) _) fun _ => ?_
    exact (lays_place [] setting.own rfl).forget fun _ => by constructor <;> simp +contextual

theorem neat_notCode (neat : Neat demand operand) : Neat demand (notCode operand) :=
  .ofCondition (.bind neat.steady fun _ => gives_aluImm ..) fun known _ => neat.branch known _

theorem neat_intCode (value : Int32) : Neat demand (intCode value) := by
  refine .ofCondition (gives_constant value) fun known expected => ?_
  split
  · exact lays_jump rfl known
  · exact .pure (.refl _)

theorem gives_minusValue (type : Ty) (neat : Neat demand operand) :
    Gives demand (minusValue type operand) :=
  .bind neat.steady fun _ => gives_alu ..

theorem lays_branchOnClass (id : ClassId) (object : Reg) (known : target ∈ setting.known) (expected : Bool) :
    Lays demand setting [] (branchOnClass (demand.table.classDef id) object target expected) fun _ => setting := by
  -- The descriptor is loaded where the data of the setting has it.
  have descriptors : ∀ setting : Setting, .classDescriptor (demand.table.classDef id).ref.name ∈ setting.data →
      Lays demand setting []
        (do
          let actual ← Emit.load .word object (-4)
          let described ← Emit.address (.classDescriptor (demand.table.classDef id).ref.name)
          return (actual, described) : Gen (Reg × Reg))
        fun _ => setting := by
    intro setting member
    exact .bind ((gives_load ..).steady.lays _) fun _ => .bind (lays_address member) fun _ => .pure (by
      constructor <;> simp +contextual)
  refine .bind (lays_describeClass id) fun _ => ?_
  cases expected with
  | true =>
    refine .bind lays_newLabel fun skip => .bind (lays_jump rfl (by simp)) fun _ =>
      .bind (descriptors _ (by simp)) fun _ => ?_
    refine .bind (lays_jump rfl (by simp [known])) fun _ => ?_
    exact (lays_place [] setting.own rfl).forget fun _ => by constructor <;> simp +contextual
  | false =>
    refine .bind (lays_jump rfl (by simpa using known)) fun _ => .bind (descriptors _ (by simp)) fun _ => ?_
    exact (lays_jump rfl (by simpa using known)).forget fun _ => by constructor <;> simp +contextual

theorem lays_branchIs (operandType tested : Ty) (neat : Neat demand operand)
    (known : target ∈ setting.known) (expected : Bool) :
    Lays demand setting [] (branchIs demand.table operandType tested operand target expected) fun _ => setting := by
  refine .bind (neat.steady.lays _) fun _ => ?_
  split
  · exact .bind ((gives_constant _).steady.lays _) fun _ => lays_branchOn _ _ _ known _
  · exact .bind ((gives_constant _).steady.lays _) fun _ => lays_branchOn _ _ _ known _
  · exact lays_branchOnClass _ _ known _
  · exact lays_branchOn _ _ _ known _

theorem gives_conditionalValue {condition thenBranch elseBranch : ExprCode} (conditionNeat : Neat demand condition)
    (thenNeat : Neat demand thenBranch) (elseNeat : Neat demand elseBranch) :
    Gives demand (conditionalValue condition thenBranch elseBranch) := by
  refine ⟨fun setting => ?_⟩
  refine .bind lays_newScratch fun result => .bind lays_newLabel fun otherwise => .bind lays_newLabel fun done => ?_
  refine .bind (conditionNeat.branch (by simp) _) fun _ => .bind (thenNeat.steady.lays _) fun _ => ?_
  refine .bind (lays_set rfl rfl (by simp)) fun _ => .bind (lays_jump rfl (by simp)) fun _ => ?_
  refine .bind (lays_place [done] setting.own rfl) fun _ => .bind (elseNeat.steady.lays _) fun _ => ?_
  refine .bind (lays_set rfl rfl (by simp)) fun _ => .bind (lays_place [] setting.own rfl) fun _ => ?_
  exact .pure (by constructor <;> simp +contextual)

theorem gives_enumDataValue {enum : EnumId} {column : Nat}
    (bound : demand.linked → column < (demand.table.enumDef enum).columns.length)
    (neat : Neat demand operand) : Gives demand (enumDataValue (demand.table.enumDef enum) column operand) := by
  refine ⟨fun setting => ?_⟩
  refine .bind (lays_enumTable bound) fun data => .bind (lays_address (by simp)) fun _ =>
    .bind (neat.steady.lays _) fun _ => ?_
  refine .bind ((gives_aluImm ..).steady.lays _) fun _ => .bind ((gives_alu ..).steady.lays _) fun _ => ?_
  exact ((gives_load ..).lays _).forget fun _ => by constructor <;> simp +contextual

theorem gives_stackBlock (bytes : Nat) : Gives demand (stackBlock bytes) :=
  .bind (steady_reserveStack _) fun _ => gives_aluImm ..

theorem gives_newObject (id : ClassId) (onStack : Bool) : Gives demand (newObject (demand.table.classDef id) onStack) := by
  refine ⟨fun setting => .bind (lays_describeClass id) fun _ => ?_⟩
  cases onStack with
  | true =>
    refine .bind ((gives_stackBlock _).lays _) fun _ => .bind (lays_address (by simp)) fun _ => ?_
    exact .bind ((steady_add rfl).lays _) fun _ => .pure (by constructor <;> simp +contextual)
  | false =>
    exact .bind (lays_address (by simp)) fun _ => ((gives_callRoutine _ (by simp [Reg.result]) _).lays _).forget fun _ => by
      constructor <;> simp +contextual

theorem isCallee_of_lt {table : Declarations} (bound : id < table.functions.size) :
    IsCallee table (table.function id).label :=
  Or.inr ⟨id, bound, rfl⟩

theorem gives_createObject (classId : ClassId) {constructor : FunctionId}
    (bound : demand.linked → constructor < demand.table.functions.size)
    (neat : ∀ code ∈ arguments, Neat demand code) (few : demand.bounded → arguments.length + 1 ≤ demand.limit.count)
    (onStack : Bool) : Gives demand (createObject demand.table classId constructor arguments onStack) := by
  refine gives_ofValues neat fun registers length => ⟨fun setting => ?_⟩
  refine .bind ((gives_newObject ..).lays _) fun object => .bind ((gives_call (fun linked =>
    isCallee_of_lt (bound linked)) (fun bounded => ?_) _).steady.lays _) fun _ => .pure (.refl _)
  rw [List.length_cons, length]
  exact few bounded

theorem gives_newArray (count : Reg) (number : Option Int32) (slot : Nat) (onStack : Bool) :
    Gives demand (newArray count number slot onStack) := by
  have onHeap : Gives demand (do Gen.callRoutine .mallocArray [count, ← Emit.constant (Int32.ofNat slot)] true) :=
    .bind (gives_constant _).steady fun _ => gives_callRoutine _ (by simp [Reg.result]) _
  simp only [newArray]
  split
  · split
    · exact ⟨fun _ => .bind ((gives_stackBlock _).lays _) fun _ => .bind ((steady_add rfl).lays _) fun _ => .pure (.refl _)⟩
    · exact onHeap
  · exact onHeap

theorem steady_fillArray (array count : Reg) (slot : Nat) (index : SymbolId) {body : ExprCode} (neat : Neat demand body) :
    Steady demand [] (fillArray demand.table array count slot index body) := by
  refine ⟨fun setting => ?_⟩
  refine .bind (lays_variableRegister ..) fun counter => .bind (lays_set rfl rfl (by simp)) fun _ => ?_
  refine .bind lays_newLabel fun again => .bind lays_newLabel fun test => ?_
  refine .bind (lays_jump rfl (by simp)) fun _ => .bind (lays_place [test] setting.own rfl) fun _ => ?_
  refine .bind (neat.steady.lays _) fun _ => .bind ((gives_aluImm ..).steady.lays _) fun _ => ?_
  refine .bind ((gives_alu ..).steady.lays _) fun _ => .bind ((steady_add rfl).lays _) fun _ => ?_
  refine .bind ((gives_aluImm ..).steady.lays _) fun _ => .bind (lays_set rfl rfl (by simp)) fun _ => ?_
  refine .bind (lays_place [] setting.own rfl) fun _ => ?_
  exact (lays_jump rfl (by simp)).forget fun _ => by constructor <;> simp +contextual

theorem gives_createArray (type : Ty) (number : Option Int32) {size : ExprCode} (neat : Neat demand size)
    {fill : Option (SymbolId × ExprCode)} (fillNeat : ∀ index body, fill = some (index, body) → Neat demand body)
    (onStack : Bool) : Gives demand (createArray demand.table type number size fill onStack) := by
  refine .bind neat.steady fun _ => ⟨fun setting => .bind ((gives_newArray ..).lays _) fun _ => ?_⟩
  split
  · exact .bind ((steady_fillArray _ _ _ _ (fillNeat _ _ rfl)).lays _) fun _ => .pure (.refl _)
  · exact .pure (.refl _)

theorem gives_arrayLiteral (type : Ty) {elements : List ExprCode} (neat : ∀ code ∈ elements, Neat demand code)
    (onStack : Bool) : Gives demand (arrayLiteral type elements onStack) := by
  refine gives_ofValues neat fun _ _ => .bind (gives_constant _).steady fun _ => ⟨fun setting => ?_⟩
  exact .bind ((gives_newArray ..).lays _) fun _ => .bind (.forM fun _ _ => (steady_add rfl).lays _) fun _ =>
    .pure (.refl _)

theorem mem_sites (member : label ∈ setting.pending state.loop ++ setting.outer) :
    label ∈ sites setting state :=
  List.mem_append_right _ (List.mem_append_right _ member)

theorem steady_jumpReturn : Steady demand [] (liftM (Emit.add (.jump Function.returnLabel)) : Gen Unit) :=
  ⟨fun _ => ⟨fun state orderly => ⟨orderly.jump rfl (mem_sites (List.mem_append_right _ orderly.labels.returns)),
    proceeds_add state _⟩⟩⟩

theorem gives_returnValue {value : Option ExprCode} (neat : ∀ code ∈ value, Neat demand code) :
    Gives demand (returnValue value) := by
  cases value with
  | none => exact .bind steady_jumpReturn fun _ => gives_zero
  | some code =>
    refine .bind (neat code rfl).steady fun _ => .bind (steady_setSmall rfl rfl fun _ => demand.limit.result) fun _ => ?_
    exact .bind steady_jumpReturn fun _ => gives_zero

theorem Orderly.jumpOut (orderly : Orderly demand setting state)
    (member : label ∈ setting.pending state.loop ++ setting.outer) :
    Orderly demand (setting.holding [Reg.zero]) (state.add (.jump label)) ∧
      Proceeds demand.linked [] state (state.add (.jump label)) :=
  ⟨((gives_zero.lays setting).runs _ (orderly.jump rfl (mem_sites member))).1, proceeds_add state _⟩

theorem gives_breakValue : Gives demand breakValue := by
  refine ⟨fun setting => ⟨fun state orderly => ?_⟩⟩
  obtain ⟨program, function, loop, trace⟩ := state
  cases loop with
  | none => exact (gives_zero.lays setting).runs _ orderly
  | some labels => exact orderly.jumpOut (List.mem_append_right _ (orderly.labels.breaks labels rfl))

theorem Labelled.mem_nextPass (labelled : Labelled setting state) {labels : LoopLabels}
    (given : state.loop = some labels) (next : labels.continueLabel = some label) :
    label ∈ setting.pending state.loop ++ setting.outer := by
  cases makes : setting.makesNext with
  | true =>
    simp [Setting.pending, makes, given, next]
  | false =>
    obtain ⟨other, member, same⟩ := labelled.continues makes labels given
    obtain rfl : label = other := Option.some.inj (next.symm.trans same)
    exact List.mem_append_right _ member

theorem Labelled.withNextPass (labelled : Labelled setting state) (given : state.loop = some ⟨breakLabel, none⟩) :
    Labelled setting (state.withLabel.withLoop (some ⟨breakLabel, some state.function.labelCount⟩)) := by
  let label := state.function.labelCount
  have makes : setting.makesNext = true := by
    cases makes : setting.makesNext with
    | true => rfl
    | false =>
      obtain ⟨next, _, same⟩ := labelled.continues makes _ given
      cases same
  have fresh : label ∉ sites setting state := fun member => Nat.lt_irrefl _ (labelled.handed label member)
  have same : (sites setting (state.withLabel.withLoop (some ⟨breakLabel, some label⟩))).Perm
      (label :: sites setting state) := by
    have before : setting.pending state.loop = [] := by simp [Setting.pending, given]
    have after : setting.pending (some ⟨breakLabel, some label⟩) = [label] := by simp [Setting.pending, makes]
    simp only [sites, State.withLoop, before, after, List.nil_append, List.cons_append,
      ← List.append_assoc]
    exact List.perm_middle
  constructor
  case apart => exact same.nodup_iff.mpr (List.nodup_cons.mpr ⟨fresh, labelled.apart⟩)
  case handed =>
    intro other member
    rcases List.mem_cons.mp (same.mem_iff.mp member) with rfl | old
    · exact Nat.lt_succ_self _
    · exact Nat.lt_succ_of_lt (labelled.handed other old)
  case reached => exact fun other wanted => same.mem_iff.mpr (List.mem_cons_of_mem _ (labelled.reached other wanted))
  case breaks =>
    intro labels same
    obtain rfl : _ = labels := Option.some.inj same
    have before := labelled.breaks _ given
    exact before
  case continues =>
    intro makesNone
    rw [makes] at makesNone
    cases makesNone
  case returns => exact labelled.returns

theorem proceeds_withNextPass {linked : Prop} (given : state.loop = some ⟨breakLabel, none⟩) (label : Label) :
    Proceeds linked [] state (state.withLabel.withLoop (some ⟨breakLabel, some label⟩)) where
  name := rfl
  functions _ := (List.append_nil _).symm
  gains := .refl _
  code := List.prefix_rfl
  homes _ _ := id
  noLoop none := by simp [given] at none
  loop labels same := by
    obtain rfl : _ = labels := Option.some.inj (given.symm.trans same)
    exact ⟨_, rfl, rfl, by simp⟩

theorem gives_continueValue : Gives demand continueValue := by
  refine ⟨fun setting => ⟨fun state orderly => ?_⟩⟩
  obtain ⟨program, function, loop, trace⟩ := state
  cases loop with
  | none => exact (gives_zero.lays setting).runs _ orderly
  | some labels =>
    obtain ⟨breakLabel, continueLabel⟩ := labels
    cases continueLabel with
    | some label => exact orderly.jumpOut (orderly.labels.mem_nextPass rfl rfl)
    | none =>
      have labels := orderly.labels.withNextPass rfl
      obtain ⟨jumped, follows⟩ := (orderly.relabel labels rfl rfl rfl rfl rfl).jumpOut (labels.mem_nextPass rfl rfl)
      exact ⟨jumped, (proceeds_withNextPass rfl _).trans follows⟩

theorem gives_callFunction (bound : demand.linked → id < demand.table.functions.size)
    (neat : ∀ code ∈ arguments, Neat demand code) (few : demand.bounded → arguments.length ≤ demand.limit.count) :
    Gives demand (callFunction (demand.table.function id) arguments) :=
  gives_ofValues neat fun _ length => gives_call (fun linked => isCallee_of_lt (bound linked))
    (fun bounded => length.le.trans (few bounded)) _

theorem gives_callValue (type : Ty) {callee : ExprCode} (calleeNeat : Neat demand callee)
    (neat : ∀ code ∈ arguments, Neat demand code) (few : demand.bounded → arguments.length ≤ demand.limit.count) :
    Gives demand (callValue type callee arguments) :=
  .bind calleeNeat.steady fun _ => gives_ofValues neat fun _ length =>
    gives_callRegister _ (fun bounded => length.le.trans (few bounded)) _

def IsNamed (table : Declarations) (node : Expr) : Prop :=
  match node.shape with
  | .functionName _ function | .methodCall _ function _ | .createObject _ function _ _ => function < table.functions.size
  | .enumData _ enum column => column < (table.enumDef enum).columns.length
  | _ => True

structure Demand.Allows (demand : Demand) (node : Expr) : Prop where
  few : demand.bounded → node.shape.passed ≤ demand.limit.count
  named : demand.linked → IsNamed demand.table node

theorem length_exprCodes (table : Declarations) (exprs : List Expr) : (exprCodes table exprs).length = exprs.length := by
  induction exprs with
  | nil => rfl
  | cons expr rest ih => simp [exprCodes, ih]

theorem neat_call (type : Ty) {callee : Expr} (named : demand.linked → IsNamed demand.table callee)
    (calleeNeat : Neat demand (exprCode demand.table callee)) {arguments : List Expr}
    (neat : ∀ code ∈ exprCodes demand.table arguments, Neat demand code)
    (few : demand.bounded → arguments.length ≤ demand.limit.count) :
    Neat demand (shapeCode demand.table type (.call callee arguments)) := by
  rw [← length_exprCodes demand.table] at few
  by_cases byName : ∃ symbol function span calleeType, callee = .mk (.functionName symbol function) span calleeType
  · obtain ⟨symbol, function, span, calleeType, rfl⟩ := byName
    exact .ofValue (gives_callFunction named neat few)
  · rw [shapeCode]
    · exact .ofValue (gives_callValue type calleeNeat neat few)
    · intro symbol function span calleeType same
      exact byName ⟨symbol, function, span, calleeType, same⟩

mutual

theorem neat_exprCode : ∀ expr : Expr, (∀ node ∈ expr.within, demand.Allows node) → Neat demand (exprCode demand.table expr)
  | .mk shape span type, allowed => by
      simp only [Typed.Expr.within, List.forall_mem_cons] at allowed
      exact neat_shapeCode type shape allowed.1 allowed.2

theorem neat_shapeCode (type : Ty) : ∀ {span : Span} (shape : ExprShape), demand.Allows (.mk shape span type) →
    (∀ node ∈ shape.within, demand.Allows node) → Neat demand (shapeCode demand.table type shape)
  | _, .int value, _, _ => neat_intCode value
  | _, .real value, _, _ => .ofValue (gives_constant _)
  | _, .string value, _, _ => .ofValue ⟨fun _ => .bind (lays_intern value) fun _ =>
    (lays_address (by simp)).forget fun _ => by constructor <;> simp +contextual⟩
  | _, .localVar symbol, _, _ => .ofPlace fun _ => .bind (lays_variableRegister ..) fun _ =>
    .pure (by constructor <;> simp +contextual [Place.registers])
  | _, .globalVar symbol, _, _ => .ofPlace fun _ => (lays_globalVarPlace ..).forget fun _ => by
    constructor <;> simp +contextual
  | _, .functionName _ function, own, _ => .ofValue ⟨fun _ => lays_toTemp (fun _ => ⟨rfl, rfl⟩) (fun _ => rfl)
      fun linked _ _ _ => ⟨function, own.named linked, rfl⟩⟩
  | _, .binary op left right, _, allowed => by
      have allowed := List.forall_mem_append.mp allowed
      exact neat_binaryCode op (neat_exprCode left allowed.1) (neat_exprCode right allowed.2)
  | _, .and left right, _, allowed => by
      have allowed := List.forall_mem_append.mp allowed
      exact .ofBranch fun known _ => lays_branchAnd (neat_exprCode left allowed.1) (neat_exprCode right allowed.2) known _
  | _, .or left right, _, allowed => by
      have allowed := List.forall_mem_append.mp allowed
      exact .ofBranch fun known _ => lays_branchOr (neat_exprCode left allowed.1) (neat_exprCode right allowed.2) known _
  | _, .not operand, _, allowed => neat_notCode (neat_exprCode operand allowed)
  | _, .minus operand, _, allowed => .ofValue (gives_minusValue type (neat_exprCode operand allowed))
  | _, .index array index, _, allowed => by
      have allowed := List.forall_mem_append.mp allowed
      exact .ofPlace fun _ =>
        (lays_indexPlace (neat_exprCode array allowed.1) (neat_exprCode index allowed.2)).forget fun _ => by
        constructor <;> simp +contextual
  | _, .member object field, _, allowed => neat_member (neat_exprCode object allowed) field
  | _, .enumData value enum column, own, allowed => .ofValue (gives_enumDataValue own.named (neat_exprCode value allowed))
  | _, .returnExpr value, _, allowed => .ofValue (gives_returnValue (neat_optionCode value allowed))
  | _, .breakExpr, _, _ => .ofValue gives_breakValue
  | _, .continueExpr, _, _ => .ofValue gives_continueValue
  | _, .conditional condition thenBranch elseBranch, _, allowed => by
      have allowed := List.forall_mem_append.mp allowed
      have branches := List.forall_mem_append.mp allowed.2
      exact .ofValue (gives_conditionalValue (neat_exprCode condition allowed.1) (neat_exprCode thenBranch branches.1)
        (neat_exprCode elseBranch branches.2))
  | _, .call callee arguments, own, allowed => by
      have allowed := List.forall_mem_append.mp allowed
      exact neat_call type (allowed.1 callee (Typed.Expr.mem_within_self callee)).named (neat_exprCode callee allowed.1)
        (neat_exprCodes arguments allowed.2) own.few
  | _, .methodCall receiver function arguments, own, allowed => by
      have allowed := List.forall_mem_append.mp allowed
      refine .ofValue (gives_callFunction own.named ?_ fun bounded => ?_)
      · exact List.forall_mem_cons.mpr ⟨neat_exprCode receiver allowed.1, neat_exprCodes arguments allowed.2⟩
      · rw [List.length_cons, length_exprCodes]
        exact own.few bounded
  | _, .callValue callee arguments, own, allowed => by
      have allowed := List.forall_mem_append.mp allowed
      exact .ofValue (gives_callValue type (neat_exprCode callee allowed.1) (neat_exprCodes arguments allowed.2)
        fun bounded => (length_exprCodes _ arguments).le.trans (own.few bounded))
  | _, .createObject classId constructor arguments onStack, own, allowed => by
      refine .ofValue (gives_createObject classId own.named (neat_exprCodes arguments allowed) (fun bounded => ?_) onStack)
      rw [length_exprCodes]
      exact own.few bounded
  | _, .createArray size fill onStack, _, allowed => by
      have allowed := List.forall_mem_append.mp allowed
      exact .ofValue (gives_createArray type _ (neat_exprCode size allowed.1) (neat_fillCode fill allowed.2) onStack)
  | _, .arrayLiteral elements onStack, _, allowed =>
    .ofValue (gives_arrayLiteral type (neat_exprCodes elements allowed) onStack)
  | _, .isTest operand target, _, allowed =>
    .ofBranch fun known _ => lays_branchIs _ _ (neat_exprCode operand allowed) known _
  | _, .cast operand, _, allowed => .ofValue (neat_exprCode operand allowed).value
  | _, .makeUnion operand, _, allowed => .ofValue (neat_exprCode operand allowed).value
  | _, .unwrap operand, _, allowed => .ofValue (neat_exprCode operand allowed).value
  | _, .range _ _ _, _, _ => .ofValue gives_zero
  | _, .error _, _, _ => .ofValue gives_zero

theorem neat_exprCodes : ∀ exprs : List Expr, (∀ node ∈ Typed.exprsWithin exprs, demand.Allows node) →
    ∀ code ∈ exprCodes demand.table exprs, Neat demand code
  | [], _ => by simp [exprCodes]
  | expr :: rest, allowed => by
      simp only [Typed.exprsWithin, List.forall_mem_append] at allowed
      exact List.forall_mem_cons.mpr ⟨neat_exprCode expr allowed.1, neat_exprCodes rest allowed.2⟩

theorem neat_optionCode : ∀ value : Option Expr, (∀ node ∈ Typed.optionWithin value, demand.Allows node) →
    ∀ code ∈ optionCode demand.table value, Neat demand code
  | none, _ => by simp [optionCode]
  | some expr, allowed => by
      simp only [optionCode, Option.mem_def, Option.some.injEq, forall_eq']
      exact neat_exprCode expr allowed

theorem neat_fillCode : ∀ fill : Fill, (∀ node ∈ fill.within, demand.Allows node) →
    ∀ index body, fillCode demand.table fill = some (index, body) → Neat demand body
  | .none, _ => by simp [fillCode]
  | .each symbol expr, allowed => by
      rintro index body given
      simp only [fillCode, Option.some.injEq, Prod.mk.injEq] at given
      exact given.2 ▸ neat_exprCode expr allowed

end

end FplCompiler.Codegen
