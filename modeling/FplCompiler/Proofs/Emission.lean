import FplCompiler.Codegen.Statement
import FplCompiler.Proofs.Renaming

/-!
What the generation of code keeps. Code is only added to; registers and labels that are handed out stay what they are;
and a label that is handed out is placed at most once, by the step that asked for it or by the loop that it belongs to.
-/

namespace FplCompiler.Codegen

open Ir

variable {state : State} {instr : Instr} {function : Ir.Function}

def placed? : Instr → Option Label
  | .label label => some label
  | _ => none

def placedLabels (code : Array Instr) : List Label :=
  code.toList.filterMap placed?

theorem placedLabels_push (code : Array Instr) (instr : Instr) :
    placedLabels (code.push instr) = placedLabels code ++ (placed? instr).toList := by
  cases placed : placed? instr <;> simp [placedLabels, placed]

theorem labelPlace?_of_unique {code : Array Instr} (unique : (placedLabels code).Nodup) {place label : Nat}
    (found : code[place]? = some (.label label)) : labelPlace? code label = some place := by
  have bound : place < code.size := (Array.getElem?_eq_some_iff.mp found).1
  cases placed : labelPlace? code label with
  | none =>
    have nowhere := List.find?_eq_none.mp placed place (by simpa using bound)
    simp [found] at nowhere
  | some other =>
    have otherFound : code[other]? = some (.label label) := by simpa using List.find?_some placed
    have apart := List.pairwise_iff_getElem.mp (List.pairwise_filterMap.mp unique)
    obtain ⟨otherBound, otherGet⟩ := Array.getElem?_eq_some_iff.mp otherFound
    obtain ⟨_, get⟩ := Array.getElem?_eq_some_iff.mp found
    have different : ∀ first second : Nat, (firstBound : first < code.size) → (secondBound : second < code.size) →
        code[first] = .label label → code[second] = .label label → ¬ first < second := by
      intro first second firstBound secondBound firstGet secondGet less
      have clash := apart first second (by simpa using firstBound) (by simpa using secondBound) less
      simp [firstGet, secondGet, placed?] at clash
    have before := different place other bound otherBound get otherGet
    have after := different other place otherBound bound otherGet get
    congr
    omega

structure Regular (function : Ir.Function) : Prop where
  machine : Reg.machineCount ≤ function.registers.size
  unique : (placedLabels function.code).Nodup
  placed : ∀ label : Nat, label ∈ placedLabels function.code → label < function.labelCount
  homes : ∀ symbol register : Nat, function.variableRegs.lookup symbol = some register →
    Reg.machineCount ≤ register ∧ register < function.registers.size
  apart : ∀ symbol other register : Nat, function.variableRegs.lookup symbol = some register →
    function.variableRegs.lookup other = some register → symbol = other

structure Extends (function later : Ir.Function) : Prop where
  code : function.code.toList <+: later.code.toList
  labels : function.labelCount ≤ later.labelCount
  registers : function.registers.size ≤ later.registers.size
  kept : ∀ symbol register : Nat, function.variableRegs.lookup symbol = some register →
    later.variableRegs.lookup symbol = some register
  older : ∀ symbol register : Nat, later.variableRegs.lookup symbol = some register →
    register < function.registers.size → function.variableRegs.lookup symbol = some register
  returnsValue : later.returnsValue = function.returnsValue

theorem Extends.refl (function : Ir.Function) : Extends function function :=
  ⟨List.prefix_rfl, Nat.le_refl _, Nat.le_refl _, fun _ _ given => given, fun _ _ given _ => given, rfl⟩

theorem Extends.trans {first second third : Ir.Function} (lower : Extends first second)
    (upper : Extends second third) : Extends first third where
  code := lower.code.trans upper.code
  labels := lower.labels.trans upper.labels
  registers := lower.registers.trans upper.registers
  kept symbol register given := upper.kept symbol register (lower.kept symbol register given)
  older symbol register given bound := lower.older symbol register
    (upper.older symbol register given (Nat.lt_of_lt_of_le bound lower.registers)) bound
  returnsValue := upper.returnsValue.trans lower.returnsValue

theorem Extends.found {later : Ir.Function} (extends_ : Extends function later) {place : Nat}
    (found : function.code[place]? = some instr) : later.code[place]? = some instr := by
  obtain ⟨rest, same⟩ := extends_.code
  have bound : place < function.code.toList.length := by simpa using (Array.getElem?_eq_some_iff.mp found).1
  rw [← Array.getElem?_toList] at found ⊢
  rw [← same, List.getElem?_append_left bound, found]

def IsOpen (function : Ir.Function) (label : Nat) : Prop :=
  label < function.labelCount ∧ label ∉ placedLabels function.code

def State.nextPass? (state : State) : Option Label :=
  state.loop.bind LoopLabels.continueLabel

def Reserved (label : Nat) (state : State) : Prop :=
  IsOpen state.function label ∧ state.nextPass? ≠ some label

structure Ready (state : State) : Prop where
  regular : Regular state.function
  nextPass : ∀ label, state.nextPass? = some label → IsOpen state.function label

structure Later (own : List Label) (state later : State) : Prop where
  ready : Ready state → Ready later
  extends_ : Extends state.function later.function
  reserved : ∀ label : Nat, label ∉ own → Reserved label state → Reserved label later
  functions : later.program.functions = state.program.functions
  noLoop : state.loop = none → later.loop = none
  loop : ∀ labels, state.loop = some labels → ∃ laterLabels, later.loop = some laterLabels ∧
    laterLabels.breakLabel = labels.breakLabel ∧
    ∀ label, labels.continueLabel = some label → laterLabels.continueLabel = some label

theorem Later.refl (state : State) : Later [] state state :=
  ⟨id, .refl _, fun _ _ => id, rfl, id, fun labels given => ⟨labels, given, rfl, fun _ => id⟩⟩

theorem Later.trans {own others : List Label} {first second third : State} (lower : Later own first second)
    (upper : Later others second third) : Later (own ++ others) first third where
  ready := upper.ready ∘ lower.ready
  extends_ := lower.extends_.trans upper.extends_
  reserved label notOwn open_ := by
    simp only [List.mem_append, not_or] at notOwn
    exact upper.reserved label notOwn.2 (lower.reserved label notOwn.1 open_)
  functions := upper.functions.trans lower.functions
  noLoop := upper.noLoop ∘ lower.noLoop
  loop labels given := by
    obtain ⟨middle, middleGiven, sameBreak, sameNext⟩ := lower.loop labels given
    obtain ⟨last, lastGiven, lastBreak, lastNext⟩ := upper.loop middle middleGiven
    exact ⟨last, lastGiven, lastBreak.trans sameBreak, fun label next => lastNext label (sameNext label next)⟩

namespace State

def add (state : State) (instr : Instr) : State :=
  { state with function := { state.function with code := state.function.code.push instr } }

def withLabel (state : State) : State :=
  { state with function := { state.function with labelCount := state.function.labelCount + 1 } }

def withTemp (state : State) : State :=
  { state with function := (Emit.newTemp state.function).2 }

def withScratch (state : State) : State :=
  { state with function := (Emit.newScratch state.function).2 }

def withVariable (state : State) (symbol : SymbolId) (name : String) : State :=
  { state with function := (Emit.variableRegister symbol name state.function).2 }

end State

section Apply

variable {α β : Type} (state : State)

@[simp]
theorem bind_apply (step : Gen α) (next : α → Gen β) : (step >>= next) state = next (step state).1 (step state).2 :=
  rfl

@[simp]
theorem pure_apply (value : α) : (pure value : Gen α) state = (value, state) :=
  rfl

@[simp]
theorem add_apply (instr : Instr) : (liftM (Emit.add instr) : Gen Unit) state = ((), state.add instr) :=
  rfl

@[simp]
theorem newLabel_apply : (liftM Emit.newLabel : Gen Label) state = (state.function.labelCount, state.withLabel) :=
  rfl

@[simp]
theorem newScratch_apply :
    (liftM Emit.newScratch : Gen Reg) state = (state.function.registers.size, state.withScratch) :=
  rfl

@[simp]
theorem toTemp_apply (instr : Reg → Instr) :
    (liftM (Emit.toTemp instr) : Gen Reg) state =
      (state.function.registers.size, state.withTemp.add (instr state.function.registers.size)) :=
  rfl

@[simp]
theorem variableRegister_apply (table : Declarations) (symbol : SymbolId) :
    Gen.variableRegister table symbol state =
      ((Emit.variableRegister symbol (table.symbol symbol).name state.function).1,
        state.withVariable symbol (table.symbol symbol).name) :=
  rfl

end Apply

theorem Regular.push (regular : Regular function)
    (fresh : ∀ label, placed? instr = some label → IsOpen function label) :
    Regular { function with code := function.code.push instr } := by
  refine ⟨regular.machine, ?_, ?_, regular.homes, regular.apart⟩ <;> rw [placedLabels_push]
  · cases placed : placed? instr with
    | none => simpa using regular.unique
    | some label =>
      have absent := (fresh label placed).2
      refine List.nodup_append.mpr ⟨regular.unique, by simp, ?_⟩
      intro other member same isLabel
      obtain rfl : same = label := by simpa using isLabel
      rintro rfl
      exact absent member
  · intro label member
    rcases List.mem_append.mp member with before | now
    · exact regular.placed label before
    · exact (fresh label (by simpa using now)).1

theorem IsOpen.push {label : Nat} (isOpen : IsOpen function label)
    (other : placed? instr ≠ some label) : IsOpen { function with code := function.code.push instr } label := by
  refine ⟨isOpen.1, ?_⟩
  rw [placedLabels_push, List.mem_append, not_or]
  exact ⟨isOpen.2, by simpa using other⟩

theorem Later.add (reserved : ∀ label, placed? instr = some label → Reserved label state) :
    Later (placed? instr).toList state (state.add instr) where
  ready ready := by
    refine ⟨ready.regular.push fun label placed => (reserved label placed).1, ?_⟩
    intro label next
    refine (ready.nextPass label next).push ?_
    intro placed
    exact (reserved label placed).2 next
  extends_ := by
    refine ⟨?_, Nat.le_refl _, Nat.le_refl _, fun _ _ given => given, fun _ _ given _ => given, rfl⟩
    simp [State.add]
  reserved label notOwn isReserved := by
    refine ⟨isReserved.1.push ?_, isReserved.2⟩
    simpa using notOwn
  functions := rfl
  noLoop none := none
  loop labels given := ⟨labels, given, rfl, fun _ => id⟩

theorem Later.addPlain (state : State) (plain : placed? instr = none) :
    Later [] state (state.add instr) := by
  have step : Later (placed? instr).toList state (state.add instr) := .add (by simp [plain])
  rwa [plain] at step

theorem Later.addLabel {label : Label} (reserved : Reserved label state) :
    Later [label] state (state.add (.label label)) := by
  have step : Later (placed? (.label label)).toList state (state.add (.label label)) := by
    refine .add fun other placed => ?_
    obtain rfl : label = other := by simpa [placed?] using placed
    exact reserved
  exact step

theorem later_withLabel (state : State) : Later [] state state.withLabel := by
  have opens : ∀ label : Nat, IsOpen state.function label → IsOpen state.withLabel.function label :=
    fun label isOpen => ⟨Nat.lt_succ_of_lt isOpen.1, isOpen.2⟩
  constructor
  case ready =>
    intro ready
    have regular := ready.regular
    exact ⟨⟨regular.machine, regular.unique, fun label member => Nat.lt_succ_of_lt (regular.placed label member),
      regular.homes, regular.apart⟩, fun label next => opens label (ready.nextPass label next)⟩
  case extends_ =>
    exact ⟨List.prefix_rfl, Nat.le_succ _, Nat.le_refl _, fun _ _ given => given, fun _ _ given _ => given, rfl⟩
  case reserved => exact fun label _ isReserved => ⟨opens label isReserved.1, isReserved.2⟩
  case functions => rfl
  case noLoop => exact id
  case loop => exact fun labels given => ⟨labels, given, rfl, fun _ => id⟩

theorem reserved_withLabel (ready : Ready state) :
    Reserved state.function.labelCount state.withLabel := by
  refine ⟨⟨Nat.lt_succ_self _, ?_⟩, ?_⟩
  · intro member
    exact absurd (ready.regular.placed _ member) (Nat.lt_irrefl _)
  · intro next
    exact absurd (ready.nextPass _ next).1 (Nat.lt_irrefl _)

theorem Later.ofRegister {later : State} (code : later.function.code = state.function.code)
    (labelCount : later.function.labelCount = state.function.labelCount)
    (registers : later.function.registers.size = state.function.registers.size + 1)
    (homes : later.function.variableRegs = state.function.variableRegs)
    (returnsValue : later.function.returnsValue = state.function.returnsValue)
    (program : later.program = state.program) (loop : later.loop = state.loop) :
    Later [] state later := by
  have opens : ∀ label : Nat, IsOpen state.function label → IsOpen later.function label := by
    intro label isOpen
    rwa [IsOpen, code, labelCount]
  have next : later.nextPass? = state.nextPass? := by rw [State.nextPass?, loop, State.nextPass?]
  constructor
  case ready =>
    intro ready
    have regular := ready.regular
    have machine : Reg.machineCount ≤ later.function.registers.size := regular.machine.trans (by omega)
    refine ⟨⟨machine, by rw [code]; exact regular.unique, by rw [code, labelCount]; exact regular.placed, ?_, ?_⟩, ?_⟩
    · intro symbol register given
      rw [homes] at given
      have bounds := regular.homes symbol register given
      omega
    · rw [homes]
      exact regular.apart
    · intro label isNext
      exact opens label (ready.nextPass label (next ▸ isNext))
  case extends_ =>
    refine ⟨⟨[], by rw [code, List.append_nil]⟩, by omega, by omega, ?_, ?_, returnsValue⟩
    · rw [homes]
      exact fun _ _ given => given
    · rw [homes]
      exact fun _ _ given _ => given
  case reserved => exact fun label _ isReserved => ⟨opens label isReserved.1, next ▸ isReserved.2⟩
  case functions => rw [program]
  case noLoop =>
    intro none
    rw [loop, none]
  case loop =>
    intro labels given
    exact ⟨labels, loop.trans given, rfl, fun _ => id⟩

theorem later_withTemp (state : State) : Later [] state state.withTemp :=
  .ofRegister rfl rfl (Array.size_push _) rfl rfl rfl rfl

theorem later_withScratch (state : State) : Later [] state state.withScratch :=
  .ofRegister rfl rfl (Array.size_push _) rfl rfl rfl rfl

theorem variableRegister_eq (symbol : SymbolId) (name : String) (function : Ir.Function) :
    Emit.variableRegister symbol name function =
      match function.variableRegs.lookup symbol with
      | some register => (register, function)
      | none => (function.registers.size,
          { function with
            registers := function.registers.push ⟨name, .variable_⟩
            variableRegs := (symbol, function.registers.size) :: function.variableRegs }) := by
  change (match function.variableRegs.lookup symbol with
    | some register => (pure register : Emit Reg)
    | none => do
      let register ← Emit.newRegister ⟨name, .variable_⟩
      modify fun function : Ir.Function =>
        { function with variableRegs := (symbol, register) :: function.variableRegs }
      return register) function = _
  cases function.variableRegs.lookup symbol <;> rfl

theorem lookup_withVariable (state : State) (symbol : SymbolId) (name : String) :
    (state.withVariable symbol name).function.variableRegs.lookup symbol =
      some (Emit.variableRegister symbol name state.function).1 := by
  rw [State.withVariable, variableRegister_eq]
  cases found : state.function.variableRegs.lookup symbol with
  | none => simp
  | some register => simp [found]

theorem later_withVariable (state : State) (symbol : SymbolId) (name : String) :
    Later [] state (state.withVariable symbol name) := by
  rw [State.withVariable, variableRegister_eq]
  cases found : state.function.variableRegs.lookup symbol with
  | some register => exact .refl state
  | none =>
    have lookup : ∀ other : Nat,
        ((symbol, state.function.registers.size) :: state.function.variableRegs).lookup other =
        if other = symbol then some state.function.registers.size else state.function.variableRegs.lookup other := by
      intro other
      by_cases same : other = symbol
      · simp [same]
      · have different : (other == symbol) = false := by simpa using same
        simp only [List.lookup_cons, different, same, if_false]
    constructor
    case ready =>
      intro ready
      have regular := ready.regular
      have machine := regular.machine
      refine ⟨⟨?_, regular.unique, regular.placed, ?_, ?_⟩, ready.nextPass⟩
      · simp only [Array.size_push]
        omega
      · intro other register given
        simp only [lookup, Array.size_push] at given ⊢
        split at given
        · simp only [Option.some.injEq] at given
          omega
        · have bounds := regular.homes other register given
          omega
      · intro first second register firstGiven secondGiven
        simp only [lookup] at firstGiven secondGiven
        split at firstGiven <;> split at secondGiven
        · omega
        · have bounds := regular.homes second register secondGiven
          simp only [Option.some.injEq] at firstGiven
          omega
        · have bounds := regular.homes first register firstGiven
          simp only [Option.some.injEq] at secondGiven
          omega
        · exact regular.apart first second register firstGiven secondGiven
    case extends_ =>
      refine ⟨List.prefix_rfl, Nat.le_refl _, by simp, ?_, ?_, rfl⟩
      · intro other register given
        have different : other ≠ symbol := by
          rintro rfl
          simp [found] at given
        simpa [lookup, different] using given
      · intro other register given older
        simp only [lookup] at given
        split at given
        · simp only [Option.some.injEq] at given
          omega
        · exact given
    case reserved => exact fun _ _ isReserved => isReserved
    case functions => rfl
    case noLoop => exact id
    case loop => exact fun labels given => ⟨labels, given, rfl, fun _ => id⟩

def State.withLoop (state : State) (loop : Option LoopLabels) : State :=
  { state with loop := loop }

theorem continueLabel?_apply {labels : LoopLabels} (given : state.loop = some labels) :
    Gen.continueLabel? state =
      match labels.continueLabel with
      | some target => (some target, state)
      | none => (some state.function.labelCount,
          state.withLabel.withLoop (some ⟨labels.breakLabel, some state.function.labelCount⟩)) := by
  obtain ⟨breakLabel, continueLabel⟩ := labels
  obtain ⟨program, function, loop, trace⟩ := state
  obtain rfl : loop = _ := given
  cases continueLabel <;> rfl

theorem later_continueLabel {labels : LoopLabels} (given : state.loop = some labels) :
    Later [] state (Gen.continueLabel? state).2 := by
  rw [continueLabel?_apply given]
  obtain ⟨breakLabel, continueLabel⟩ := labels
  cases continueLabel with
  | some target => exact .refl state
  | none =>
    have step := later_withLabel state
    constructor
    case ready =>
      intro ready
      refine ⟨(step.ready ready).regular, ?_⟩
      intro label next
      obtain rfl : state.function.labelCount = label := by simpa [State.nextPass?, State.withLoop] using next
      exact (reserved_withLabel ready).1
    case extends_ => exact step.extends_
    case reserved =>
      intro label _ isReserved
      refine ⟨(step.reserved label (by simp) isReserved).1, ?_⟩
      intro next
      obtain rfl : state.function.labelCount = label := by simpa [State.nextPass?, State.withLoop] using next
      exact absurd isReserved.1.1 (Nat.lt_irrefl _)
    case functions => rfl
    case noLoop =>
      intro none
      simp [given] at none
    case loop =>
      intro labels sameLabels
      obtain rfl : _ = labels := by simpa [given] using sameLabels
      exact ⟨_, rfl, rfl, by simp⟩

end FplCompiler.Codegen
