import FplCompiler.Codegen.Program
import FplCompiler.Proofs.Emission
import FplCompiler.Proofs.GeneratedWrites
import Mathlib.Data.List.Forall2

/-!
What code generation keeps. Each label that is handed out has one site: it is placed already, or the step at hand, an
enclosing loop or the end of the function is going to place it. All that code jumps to has a site, and all data that it
loads, and every text of a table, is part of the program. Code writes new temporaries, variables and the registers of
arguments only.
-/

namespace FplCompiler.Codegen

open Ir

variable {state later : State} {instr : Instr} {arguments held : List Reg} {linked : Prop} {label : Label}
  {table : Declarations} {program : Ir.Program} {strings : StringPool} {data : StaticData} {register : Reg}

def targets (code : Array Instr) : List Label :=
  code.toList.filterMap Instr.target?

theorem targets_push (code : Array Instr) (instr : Instr) :
    targets (code.push instr) = targets code ++ instr.target?.toList := by
  cases given : instr.target? <;> simp [targets, given]

structure Joined (function : Ir.Function) : Prop where
  apart : (placedLabels function.code).Nodup
  handed : ∀ label ∈ placedLabels function.code, label < function.labelCount
  reached : ∀ label ∈ targets function.code, label ∈ placedLabels function.code

def IsFunctionLabel (table : Declarations) (label : String) : Prop :=
  ∃ id < table.functions.size, label = (table.function id).label

def Supplies (table : Declarations) (program : Ir.Program) : StaticData → Prop
  | .string index => index < program.strings.texts.size
  | .classDescriptor name => ∃ cls ∈ program.classes, cls.name = name
  | .enumTable enum column => ∃ entry ∈ program.tables, entry.label = (StaticData.enumTable enum column).label
  | .function label => IsFunctionLabel table label

def Refers (table : Declarations) (program : Ir.Program) : Instr → Prop
  | .address _ data => Supplies table program data
  | .call target _ _ => (∃ routine : Routine, target = routine.name) ∨ IsFunctionLabel table target
  | _ => True

def Words (strings : StringPool) : TableEntry → Constant → Prop
  | .int value, .int constant _ => value = constant
  | .int value, .real constant => value = constant.word
  | .string index, .string text => strings.texts[index]? = some text
  | _, _ => False

def descriptor (cls : ClassDef) : ClassDescriptor :=
  ⟨cls.ref.name, cls.layout.used⟩

def Tables (table : Declarations) (strings : StringPool) (entry : EnumTable) : Prop :=
  ∃ enum, ∃ column ∈ (table.enumDef enum).columns,
    entry.label = (StaticData.enumTable (table.enumDef enum).ref.name column.name).label ∧
    List.Forall₂ (Words strings) entry.entries column.values

/-- The functions that are done refer to data of the program; descriptors and tables are those of declared classes and
enums, each with a name of its own. -/
structure Supplied (table : Declarations) (program : Ir.Program) : Prop where
  done : ∀ function ∈ program.functions, Joined function ∧ ∀ instr ∈ function.code, Refers table program instr
  classes : ∀ cls ∈ program.classes, ∃ id, cls = descriptor (table.classDef id)
  classesApart : (program.classes.map ClassDescriptor.name).Nodup
  tables : ∀ entry ∈ program.tables, Tables table program.strings entry
  tablesApart : (program.tables.map EnumTable.label).Nodup

structure Gains (program later : Ir.Program) : Prop where
  strings : program.strings.texts.toList <+: later.strings.texts.toList
  classes : program.classes ⊆ later.classes
  tables : program.tables ⊆ later.tables

theorem Gains.refl (program : Ir.Program) : Gains program program :=
  ⟨List.prefix_rfl, List.Subset.refl _, List.Subset.refl _⟩

theorem Gains.trans {first second third : Ir.Program} (lower : Gains first second) (upper : Gains second third) :
    Gains first third :=
  ⟨lower.strings.trans upper.strings, List.Subset.trans lower.classes upper.classes,
    List.Subset.trans lower.tables upper.tables⟩

theorem Supplies.mono {later : Ir.Program} (gains : Gains program later)
    (supplies : Supplies table program data) : Supplies table later data := by
  cases data with
  | string index => exact Nat.lt_of_lt_of_le supplies (by simpa using gains.strings.length_le)
  | classDescriptor name =>
    obtain ⟨cls, member, same⟩ := supplies
    exact ⟨cls, gains.classes member, same⟩
  | enumTable enum column =>
    obtain ⟨entry, member, same⟩ := supplies
    exact ⟨entry, gains.tables member, same⟩
  | function label => exact supplies

theorem Refers.mono {later : Ir.Program} (gains : Gains program later)
    (refers : Refers table program instr) : Refers table later instr := by
  cases instr <;> first | exact trivial | exact Supplies.mono gains refers | exact refers

theorem Words.mono {later : StringPool} (longer : strings.texts.toList <+: later.texts.toList)
    {entry : TableEntry} {constant : Constant} (words : Words strings entry constant) :
    Words later entry constant := by
  cases entry <;> cases constant <;> first | exact words | skip
  rename_i index text
  obtain ⟨rest, same⟩ := longer
  have found : strings.texts.toList[index]? = some text := Array.getElem?_toList.trans words
  have bound := (List.getElem?_eq_some_iff.mp found).1
  change later.texts[index]? = some text
  rw [← Array.getElem?_toList, ← same, List.getElem?_append_left bound, found]

theorem Tables.mono {later : StringPool}
    (longer : strings.texts.toList <+: later.texts.toList) {entry : EnumTable} (tables : Tables table strings entry) :
    Tables table later entry := by
  obtain ⟨enum, column, member, label, words⟩ := tables
  exact ⟨enum, column, member, label, words.imp fun _ _ word => word.mono longer⟩

/-- What is asked of generated code: if calls pass few arguments, that its writes fit, with each temporary written once
or not; and if the names of a tree are declared, that it refers to what there is. -/
structure Demand where
  table : Declarations
  limit : ArgumentLimit
  single : Prop
  bounded : Prop
  linked : Prop

/-- What a step may rely on: the open labels that are placed around it and those that it has to place, the labels that
have a site, data that is supplied, and registers with a value or open to writes. In the body of some loops the label of
the next pass is made when it is needed. -/
structure Setting where
  outer : List Label
  own : List Label
  known : List Label
  data : List StaticData
  held : List Reg
  writable : List Reg
  makesNext : Bool

namespace Setting

@[simp]
def withLabel (setting : Setting) (label : Label) : Setting :=
  { setting with own := label :: setting.own, known := label :: setting.known }

@[simp]
def placing (setting : Setting) (own : List Label) : Setting :=
  { setting with own := own }

@[simp]
def withData (setting : Setting) (data : StaticData) : Setting :=
  { setting with data := data :: setting.data }

@[simp]
def holding (setting : Setting) (registers : List Reg) : Setting :=
  { setting with held := registers ++ setting.held }

@[simp]
def writing (setting : Setting) (registers : List Reg) : Setting :=
  { setting with held := registers ++ setting.held, writable := registers ++ setting.writable }

def ofFunction (setting : Setting) : Setting :=
  { setting with
    outer := [Function.returnLabel], own := [], known := [], held := [], writable := [], makesNext := false }

structure Covers (setting other : Setting) : Prop where
  outer : other.outer = setting.outer
  own : other.own = setting.own
  known : ∀ label ∈ other.known, label ∈ setting.known
  data : ∀ data ∈ other.data, data ∈ setting.data
  held : ∀ register ∈ other.held, register ∈ setting.held
  writable : ∀ register ∈ other.writable, register ∈ setting.writable
  makesNext : other.makesNext = setting.makesNext

theorem Covers.refl (setting : Setting) : setting.Covers setting :=
  ⟨rfl, rfl, fun _ => id, fun _ => id, fun _ => id, fun _ => id, rfl⟩

def pending (setting : Setting) (loop : Option LoopLabels) : List Label :=
  if setting.makesNext then (loop.bind LoopLabels.continueLabel).toList else []

end Setting

def sites (setting : Setting) (state : State) : List Label :=
  placedLabels state.function.code ++ (setting.own ++ (setting.pending state.loop ++ setting.outer))

structure Labelled (setting : Setting) (state : State) : Prop where
  apart : (sites setting state).Nodup
  handed : ∀ label ∈ sites setting state, label < state.function.labelCount
  reached : ∀ label, label ∈ setting.known ∨ label ∈ targets state.function.code → label ∈ sites setting state
  breaks : ∀ labels, state.loop = some labels → labels.breakLabel ∈ setting.outer
  continues : setting.makesNext = false → ∀ labels, state.loop = some labels →
    ∃ next ∈ setting.outer, labels.continueLabel = some next
  returns : Function.returnLabel ∈ setting.outer

structure Referring (table : Declarations) (data : List StaticData) (state : State) : Prop where
  refers : ∀ instr ∈ state.function.code, Refers table state.program instr
  data : ∀ datum ∈ data, Supplies table state.program datum
  supplied : Supplied table state.program

structure Housed (held : List Reg) (known : List RegInfo) (homes : List (SymbolId × Reg)) : Prop where
  machine : Reg.machineCount ≤ known.length
  homes : ∀ symbol register, homes.lookup symbol = some register → HoldsVariable known register
  held : ∀ register ∈ held, Held known register

theorem Housed.mono {known later : List RegInfo} {homes laterHomes : List (SymbolId × Reg)}
    (housed : Housed held known homes) (longer : known <+: later)
    (new : ∀ symbol register, laterHomes.lookup symbol = some register →
      homes.lookup symbol = some register ∨ HoldsVariable later register) : Housed held later laterHomes where
  machine := housed.machine.trans longer.length_le
  homes symbol register given :=
    (new symbol register given).elim (fun old => (housed.homes symbol register old).mono longer) id
  held register member := (housed.held register member).mono longer

structure Bounded (demand : Demand) (setting : Setting) (state : State) : Prop where
  tidy : Tidy demand.limit demand.single state.function
  done : ∀ function ∈ state.program.functions, Tidy demand.limit demand.single function ∧ function.Begins
  writable : ∀ register ∈ setting.writable,
    Writable demand.limit demand.single state.function.registers.toList register

structure Orderly (demand : Demand) (setting : Setting) (state : State) : Prop where
  labels : Labelled setting state
  links : demand.linked → Referring demand.table setting.data state
  housed : Housed setting.held state.function.registers.toList state.function.variableRegs
  writes : demand.bounded → Bounded demand setting state

/-- What a step leaves, apart from the code that it adds: functions of the given names are done, in this order. -/
structure Proceeds (linked : Prop) (made : List String) (state later : State) : Prop where
  name : later.function.name = state.function.name
  functions : linked → later.program.functions.map Function.name = state.program.functions.map Function.name ++ made
  gains : Gains state.program later.program
  code : state.function.code.toList <+: later.function.code.toList
  homes : ∀ symbol register, state.function.variableRegs.lookup symbol = some register →
    later.function.variableRegs.lookup symbol = some register
  noLoop : state.loop = none → later.loop = none
  loop : ∀ labels, state.loop = some labels → ∃ laterLabels, later.loop = some laterLabels ∧
    laterLabels.breakLabel = labels.breakLabel ∧
    ∀ label, labels.continueLabel = some label → laterLabels.continueLabel = some label

variable {demand : Demand} {setting other : Setting} {made further : List String} {α β : Type} {elements : List α}
  {step : Gen α} {next : α → Gen β} {target : String}

theorem Proceeds.same (name : later.function.name = state.function.name)
    (code : state.function.code.toList <+: later.function.code.toList)
    (homes : ∀ symbol register, state.function.variableRegs.lookup symbol = some register →
      later.function.variableRegs.lookup symbol = some register)
    (functions : later.program.functions = state.program.functions) (gains : Gains state.program later.program)
    (loop : later.loop = state.loop) : Proceeds linked [] state later where
  name := name
  functions _ := by rw [functions, List.append_nil]
  gains := gains
  code := code
  homes := homes
  noLoop none := loop.trans none
  loop labels given := ⟨labels, loop.trans given, rfl, fun _ => id⟩

theorem Proceeds.refl (state : State) : Proceeds linked [] state state :=
  .same rfl List.prefix_rfl (fun _ _ => id) rfl (.refl _) rfl

theorem Proceeds.trans {first second third : State} (lower : Proceeds linked made first second)
    (upper : Proceeds linked further second third) : Proceeds linked (made ++ further) first third where
  name := upper.name.trans lower.name
  functions links := by rw [upper.functions links, lower.functions links, List.append_assoc]
  gains := lower.gains.trans upper.gains
  code := lower.code.trans upper.code
  homes symbol register := upper.homes symbol register ∘ lower.homes symbol register
  noLoop none := upper.noLoop (lower.noLoop none)
  loop labels given := by
    obtain ⟨middle, middleGiven, sameBreak, sameNext⟩ := lower.loop labels given
    obtain ⟨last, lastGiven, lastBreak, lastNext⟩ := upper.loop middle middleGiven
    exact ⟨last, lastGiven, lastBreak.trans sameBreak, fun label next => lastNext label (sameNext label next)⟩

/-- A step that keeps code generation orderly: functions of the given names are done on the way, and the setting after it
depends on its result. -/
structure Lays {α : Type} (demand : Demand) (setting : Setting) (made : List String) (step : Gen α)
    (after : α → Setting) : Prop where
  runs : ∀ state, Orderly demand setting state →
    Orderly demand (after (step state).1) (step state).2 ∧ Proceeds demand.linked made state (step state).2

structure Steady {α : Type} (demand : Demand) (made : List String) (step : Gen α) : Prop where
  lays : ∀ setting, Lays demand setting made step fun _ => setting

structure Gives (demand : Demand) (step : Gen Reg) : Prop where
  lays : ∀ setting, Lays demand setting [] step fun register => setting.holding [register]

theorem Orderly.forget (orderly : Orderly demand setting state)
    (covers : setting.Covers other) : Orderly demand other state := by
  have same : sites other state = sites setting state := by
    simp only [sites, Setting.pending, covers.outer, covers.own, covers.makesNext]
  have labels := orderly.labels
  constructor
  case labels =>
    refine ⟨same ▸ labels.apart, same ▸ labels.handed, ?_, covers.outer ▸ labels.breaks, ?_, covers.outer ▸ labels.returns⟩
    · rw [same]
      exact fun label wanted => labels.reached label (wanted.imp_left (covers.known label))
    · rw [covers.makesNext, covers.outer]
      exact labels.continues
  case links =>
    intro linked
    have links := orderly.links linked
    exact ⟨links.refers, fun datum member => links.data datum (covers.data datum member), links.supplied⟩
  case housed =>
    have housed := orderly.housed
    exact ⟨housed.machine, housed.homes, fun register member => housed.held register (covers.held register member)⟩
  case writes =>
    intro bounded
    have writes := orderly.writes bounded
    exact ⟨writes.tidy, writes.done, fun register member => writes.writable register (covers.writable register member)⟩

namespace Lays

variable {middle : α → Setting} {after : β → Setting}

theorem both (first : Lays demand setting made step middle)
    (second : ∀ value, Lays demand (middle value) further (next value) after) :
    Lays demand setting (made ++ further) (step >>= next) after := by
  refine ⟨fun state orderly => ?_⟩
  obtain ⟨middleOrderly, middleFollows⟩ := first.runs state orderly
  obtain ⟨lastOrderly, lastFollows⟩ := (second _).runs _ middleOrderly
  exact ⟨lastOrderly, middleFollows.trans lastFollows⟩

theorem bind
    (first : Lays demand setting [] step middle) (second : ∀ value, Lays demand (middle value) made (next value) after) :
    Lays demand setting made (step >>= next) after :=
  first.both second

theorem andThen
    (first : Lays demand setting made step middle) (second : ∀ value, Lays demand (middle value) [] (next value) after) :
    Lays demand setting made (step >>= next) after := by
  have whole := first.both second
  rwa [List.append_nil] at whole

theorem pure {value : α} {after : α → Setting} (covers : setting.Covers (after value)) :
    Lays demand setting [] (Pure.pure value : Gen α) after :=
  ⟨fun state orderly => ⟨orderly.forget covers, .refl state⟩⟩

theorem forget {after other : α → Setting} (lays : Lays demand setting made step after)
    (covers : ∀ value, (after value).Covers (other value)) :
    Lays demand setting made step other := by
  refine ⟨fun state orderly => ?_⟩
  obtain ⟨later, follows⟩ := lays.runs state orderly
  exact ⟨later.forget (covers _), follows⟩

theorem forM {step : α → Gen Unit}
    (each : ∀ element ∈ elements, Lays demand setting [] (step element) fun _ => setting) :
    Lays demand setting [] (elements.forM step) fun _ => setting := by
  induction elements with
  | nil => exact .pure (.refl _)
  | cons element rest ih =>
    exact (each element (by simp)).bind fun _ => ih fun other member => each other (by simp [member])

end Lays

namespace Steady

theorem bind (first : Steady demand [] step)
    (second : ∀ value, Steady demand made (next value)) : Steady demand made (step >>= next) :=
  ⟨fun setting => (first.lays setting).bind fun value => (second value).lays setting⟩

theorem both {step next : Gen Unit} (first : Steady demand made step) (second : Steady demand further next) :
    Steady demand (made ++ further) (step >>= fun _ => next) :=
  ⟨fun setting => (first.lays setting).both fun _ => second.lays setting⟩

theorem pure (value : α) : Steady demand [] (Pure.pure value : Gen α) :=
  ⟨fun _ => .pure (.refl _)⟩

theorem forM {step : α → Gen Unit} (each : ∀ element ∈ elements, Steady demand [] (step element)) :
    Steady demand [] (elements.forM step) :=
  ⟨fun setting => .forM fun element member => (each element member).lays setting⟩

theorem mapM {step : α → Gen β} (each : ∀ element ∈ elements, Steady demand [] (step element)) :
    Steady demand [] (elements.mapM step) := by
  induction elements with
  | nil => exact pure []
  | cons element rest ih =>
    rw [List.mapM_cons]
    refine bind (each element (by simp)) fun _ => ?_
    exact bind (ih fun other member => each other (by simp [member])) fun _ => pure _

end Steady

namespace Gives

theorem steady {step : Gen Reg} (gives : Gives demand step) : Steady demand [] step :=
  ⟨fun setting => (gives.lays setting).forget fun _ => by constructor <;> simp +contextual⟩

theorem bind {next : α → Gen Reg} (first : Steady demand [] step)
    (second : ∀ value, Gives demand (next value)) : Gives demand (step >>= next) :=
  ⟨fun setting => (first.lays setting).bind fun value => (second value).lays setting⟩

end Gives

theorem Labelled.same (labels : Labelled setting state)
    (code : later.function.code = state.function.code) (count : later.function.labelCount = state.function.labelCount)
    (loop : later.loop = state.loop) : Labelled setting later := by
  have same : sites setting later = sites setting state := by rw [sites, code, loop, sites]
  refine ⟨same ▸ labels.apart, count ▸ same ▸ labels.handed, ?_, loop ▸ labels.breaks, loop ▸ labels.continues,
    labels.returns⟩
  rw [code, same]
  exact labels.reached

/-- A step that adds no code, and at most registers. -/
theorem Orderly.same (orderly : Orderly demand setting state)
    (name : later.function.name = state.function.name) (code : later.function.code = state.function.code)
    (count : later.function.labelCount = state.function.labelCount) (loop : later.loop = state.loop)
    (program : later.program = state.program)
    (longer : state.function.registers.toList <+: later.function.registers.toList)
    (kept : ∀ symbol register, state.function.variableRegs.lookup symbol = some register →
      later.function.variableRegs.lookup symbol = some register)
    (homes : ∀ symbol register, later.function.variableRegs.lookup symbol = some register →
      state.function.variableRegs.lookup symbol = some register ∨ HoldsVariable later.function.registers.toList register)
    (tidy : Tidy demand.limit demand.single state.function → Tidy demand.limit demand.single later.function) :
    Orderly demand setting later ∧ Proceeds demand.linked [] state later := by
  refine ⟨⟨orderly.labels.same code count loop, fun linked => ?_, orderly.housed.mono longer homes, fun bounded => ?_⟩, ?_⟩
  · have links := orderly.links linked
    exact ⟨code ▸ program ▸ links.refers, program ▸ links.data, program ▸ links.supplied⟩
  · have writes := orderly.writes bounded
    exact ⟨tidy writes.tidy, program ▸ writes.done, fun register member => (writes.writable register member).mono longer⟩
  · exact .same name (by rw [code]) kept (by rw [program]) (by rw [program]; exact .refl _) loop

theorem Orderly.adding (orderly : Orderly demand setting state) {data : List StaticData}
    {writable : List Reg} (supplies : demand.linked → ∀ datum ∈ data, Supplies demand.table state.program datum)
    (holds : ∀ register ∈ held, Held state.function.registers.toList register)
    (writes : demand.bounded → ∀ register ∈ writable,
      Writable demand.limit demand.single state.function.registers.toList register) :
    Orderly demand { setting with
      data := data ++ setting.data, held := held ++ setting.held, writable := writable ++ setting.writable } state where
  labels := ⟨orderly.labels.apart, orderly.labels.handed, orderly.labels.reached, orderly.labels.breaks,
    orderly.labels.continues, orderly.labels.returns⟩
  links linked := ⟨(orderly.links linked).refers,
    List.forall_mem_append.mpr ⟨supplies linked, (orderly.links linked).data⟩, (orderly.links linked).supplied⟩
  housed := ⟨orderly.housed.machine, orderly.housed.homes, List.forall_mem_append.mpr ⟨holds, orderly.housed.held⟩⟩
  writes bounded := ⟨(orderly.writes bounded).tidy, (orderly.writes bounded).done,
    List.forall_mem_append.mpr ⟨writes bounded, (orderly.writes bounded).writable⟩⟩

theorem Orderly.withData (orderly : Orderly demand setting state)
    (supplies : demand.linked → Supplies demand.table state.program data) : Orderly demand (setting.withData data) state :=
  orderly.adding (fun linked => List.forall_mem_singleton.mpr (supplies linked)) (List.forall_mem_nil _)
    fun _ => List.forall_mem_nil _

theorem Orderly.holding (orderly : Orderly demand setting state) {registers : List Reg}
    (holds : ∀ register ∈ registers, Held state.function.registers.toList register) :
    Orderly demand (setting.holding registers) state :=
  orderly.adding (fun _ => List.forall_mem_nil _) holds fun _ => List.forall_mem_nil _

theorem Orderly.writing (orderly : Orderly demand setting state)
    (isVariable : HoldsVariable state.function.registers.toList register) :
    Orderly demand (setting.writing [register]) state :=
  orderly.adding (fun _ => List.forall_mem_nil _) (List.forall_mem_singleton.mpr isVariable.held)
    fun _ => List.forall_mem_singleton.mpr isVariable.writable

theorem steady_note (line : String) : Steady demand [] (Gen.note line) :=
  ⟨fun _ => ⟨fun _ orderly => orderly.same rfl rfl rfl rfl rfl List.prefix_rfl (fun _ _ => id) (fun _ _ => Or.inl) id⟩⟩

theorem steady_reserveStack (bytes : Nat) : Steady demand [] (liftM (Emit.reserveStack bytes) : Gen Int32) :=
  ⟨fun _ => ⟨fun _ orderly => orderly.same rfl rfl rfl rfl rfl List.prefix_rfl (fun _ _ => id)
      (fun _ _ => Or.inl) fun tidy =>
    ⟨⟨tidy.fit.machine, tidy.fit.highest, tidy.fit.kinds, tidy.fit.writes⟩, tidy.once, tidy.entered⟩⟩⟩

theorem lays_newScratch : Lays demand setting [] (liftM Emit.newScratch : Gen Reg) fun register =>
    setting.writing [register] := by
  refine ⟨fun state orderly => ?_⟩
  have made : state.withScratch.function.registers =
      state.function.registers.push ⟨s!"V{state.function.scratchCount}", .variable_⟩ := rfl
  have later : Orderly demand setting state.withScratch ∧ _ := orderly.same rfl rfl rfl rfl rfl
    ⟨_, (Array.toList_push ..).symm⟩ (fun _ _ => id) (fun _ _ => Or.inl) fun tidy => tidy.withRegister made rfl rfl
  exact ⟨later.1.writing ⟨orderly.housed.machine, _, by simp [made]; rfl⟩, later.2⟩

theorem lays_variableRegister (table : Declarations) (symbol : SymbolId) :
    Lays demand setting [] (Gen.variableRegister table symbol) fun register => setting.writing [register] := by
  refine ⟨fun state orderly => ?_⟩
  rw [variableRegister_apply, State.withVariable, variableRegister_eq]
  cases found : state.function.variableRegs.lookup symbol with
  | some register => exact ⟨orderly.writing (orderly.housed.homes symbol register found), .refl _⟩
  | none =>
    have isVariable : HoldsVariable (state.function.registers.push ⟨(table.symbol symbol).name, .variable_⟩).toList
        state.function.registers.size := ⟨orderly.housed.machine, (table.symbol symbol).name, by simp⟩
    refine And.imp_left (fun later => Orderly.writing later isVariable) (?_ : Orderly demand setting _ ∧ _)
    refine orderly.same rfl rfl rfl rfl rfl ⟨_, (Array.toList_push ..).symm⟩ (fun other register given => ?_)
      (fun other register given => ?_) fun tidy => tidy.withRegister rfl rfl rfl
    · have different : (other == symbol) = false := by
        refine beq_false_of_ne ?_
        rintro rfl
        simp [found] at given
      simpa [List.lookup_cons, different] using given
    · simp only [List.lookup_cons] at given
      split at given
      · exact Or.inr (Option.some.inj given ▸ isVariable)
      · exact Or.inl given

theorem Orderly.add (orderly : Orderly demand setting state)
    (plain : placed? instr = none) (target : ∀ label, instr.target? = some label → label ∈ sites setting state)
    (refers : demand.linked → Refers demand.table state.program instr)
    (tidy : demand.bounded → Tidy demand.limit demand.single (state.add instr).function) :
    Orderly demand setting (state.add instr) := by
  have same : sites setting (state.add instr) = sites setting state := by
    simp [sites, State.add, placedLabels_push, plain]
  have labels := orderly.labels
  constructor
  case labels =>
    refine ⟨same ▸ labels.apart, same ▸ labels.handed, fun label wanted => ?_, labels.breaks, labels.continues,
      labels.returns⟩
    rw [same]
    rcases wanted with known | jumped
    · exact labels.reached label (Or.inl known)
    · rw [show (state.add instr).function.code = state.function.code.push instr from rfl, targets_push] at jumped
      rcases List.mem_append.mp jumped with old | new
      · exact labels.reached label (Or.inr old)
      · exact target label (by simpa using new)
  case links =>
    intro linked
    have links := orderly.links linked
    refine ⟨fun other member => ?_, links.data, links.supplied⟩
    rcases Array.mem_push.mp member with old | rfl
    · exact links.refers other old
    · exact refers linked
  case housed => exact orderly.housed
  case writes =>
    intro bounded
    have writes := orderly.writes bounded
    exact ⟨tidy bounded, writes.done, writes.writable⟩

theorem proceeds_add (state : State) (instr : Instr) : Proceeds linked [] state (state.add instr) :=
  .same rfl ⟨[instr], by simp [State.add]⟩ (fun _ _ => id) rfl (.refl _) rfl

theorem sites_place (state : State) {front back : List Label} (own : setting.own = front ++ label :: back) :
    (sites (setting.placing (front ++ back)) (state.add (.label label))).Perm (sites setting state) := by
  have placed : placedLabels (state.add (.label label)).function.code =
      placedLabels state.function.code ++ [label] := by
    rw [show (state.add (.label label)).function.code = state.function.code.push (.label label) from rfl,
      placedLabels_push]
    rfl
  -- The label was one of those to be placed and is now the last of those that are.
  simp only [sites, placed, own, Setting.placing, List.append_assoc, List.cons_append, List.nil_append]
  exact (List.perm_append_left_iff _).mpr List.perm_middle.symm

theorem lays_place (front back : List Label) (own : setting.own = front ++ label :: back) :
    Lays demand setting [] (liftM (Emit.add (.label label)) : Gen Unit) fun _ => setting.placing (front ++ back) := by
  refine ⟨fun state orderly => ⟨⟨?_, fun linked => ?_, orderly.housed, fun bounded => ?_⟩, proceeds_add state _⟩⟩
  · have same := sites_place state own
    have labels := orderly.labels
    refine ⟨same.nodup_iff.mpr labels.apart, fun other member => labels.handed other (same.mem_iff.mp member),
      fun other wanted => ?_, labels.breaks, labels.continues, labels.returns⟩
    refine same.mem_iff.mpr (labels.reached other (wanted.imp_right fun jumped => ?_))
    rw [add_apply, show (state.add (.label label)).function.code = state.function.code.push (.label label) from rfl,
      targets_push] at jumped
    simpa [Instr.target?] using jumped
  · have links := orderly.links linked
    refine ⟨fun other member => ?_, links.data, links.supplied⟩
    rcases Array.mem_push.mp member with old | rfl
    · exact links.refers other old
    · trivial
  · have writes := orderly.writes bounded
    exact ⟨writes.tidy.pushWritable (fun _ given => by cases given) (by simp), writes.done, writes.writable⟩

def isLocal (instr : Instr) : Bool :=
  (placed? instr).isNone && instr.target?.isNone &&
    match instr with
    | .address _ _ | .call _ _ _ => false
    | _ => true

def isPlain (instr : Instr) : Bool :=
  isLocal instr && instr.def?.isNone &&
    match instr with
    | .start => false
    | _ => true

theorem Orderly.addLocal (orderly : Orderly demand setting state)
    (local_ : isLocal instr = true) (tidy : demand.bounded → Tidy demand.limit demand.single (state.add instr).function) :
    Orderly demand setting (state.add instr) := by
  simp only [isLocal, Bool.and_eq_true, Option.isNone_iff_eq_none] at local_
  refine orderly.add local_.1.1 (fun label jumps => ?_) (fun _ => ?_) tidy
  · rw [local_.1.2] at jumps
    cases jumps
  · cases instr <;> first | trivial | simp at local_

theorem Orderly.tidyAdd (orderly : Orderly demand setting state)
    (writes : ∀ register, instr.def? = some register → register ∈ setting.writable ∨
      (demand.bounded → register ≤ demand.limit.count)) (entered : instr ≠ .start) (bounded : demand.bounded) :
    Tidy demand.limit demand.single (state.add instr).function := by
  refine (orderly.writes bounded).tidy.pushWritable (fun register given => ?_) entered
  rcases writes register given with open_ | small
  · exact (orderly.writes bounded).writable register open_
  · exact Or.inl (small bounded)

theorem steady_add (plain : isPlain instr = true) :
    Steady demand [] (liftM (Emit.add instr) : Gen Unit) := by
  refine ⟨fun _ => ⟨fun state orderly => ⟨?_, proceeds_add state instr⟩⟩⟩
  simp only [isPlain, Bool.and_eq_true, Option.isNone_iff_eq_none] at plain
  refine orderly.addLocal plain.1.1 (orderly.tidyAdd (fun _ given => ?_) ?_)
  · simp [plain.1.2] at given
  · rintro rfl
    simp at plain

theorem lays_set (local_ : isLocal instr = true) (writes : instr.def? = some register)
    (open_ : register ∈ setting.writable ∨ (demand.bounded → register ≤ demand.limit.count)) :
    Lays demand setting [] (liftM (Emit.add instr) : Gen Unit) fun _ => setting := by
  refine ⟨fun state orderly => ⟨orderly.addLocal local_ (orderly.tidyAdd (fun other given => ?_) ?_),
    proceeds_add state instr⟩⟩
  · exact Option.some.inj (writes.symm.trans given) ▸ open_
  · rintro rfl
    cases writes

theorem steady_setSmall (local_ : isLocal instr = true) (writes : instr.def? = some register)
    (small : demand.bounded → register ≤ demand.limit.count) : Steady demand [] (liftM (Emit.add instr) : Gen Unit) :=
  ⟨fun _ => lays_set local_ writes (Or.inr small)⟩

theorem Orderly.jump (orderly : Orderly demand setting state)
    (jumps : instr.target? = some label) (site : label ∈ sites setting state) :
    Orderly demand setting (state.add instr) := by
  refine orderly.add ?_ (fun other given => Option.some.inj (jumps.symm.trans given) ▸ site) (fun _ => ?_)
    (orderly.tidyAdd (fun _ given => ?_) ?_)
  · cases instr <;> cases jumps <;> rfl
  · cases instr <;> trivial
  · cases instr <;> cases jumps <;> cases given
  · rintro rfl
    cases jumps

theorem lays_jump (jumps : instr.target? = some label) (known : label ∈ setting.known) :
    Lays demand setting [] (liftM (Emit.add instr) : Gen Unit) fun _ => setting :=
  ⟨fun state orderly => ⟨orderly.jump jumps (orderly.labels.reached label (Or.inl known)), proceeds_add state instr⟩⟩

theorem Orderly.relabel (orderly : Orderly demand setting state)
    (labels : Labelled other later) {count : Nat} (function : later.function = { state.function with labelCount := count })
    (program : later.program = state.program) (data : other.data = setting.data) (held : other.held = setting.held)
    (writable : other.writable = setting.writable) : Orderly demand other later := by
  obtain ⟨_, _, loop, trace⟩ := later
  obtain rfl := function
  obtain rfl := program
  refine ⟨labels, fun linked => ?_, held ▸ orderly.housed, fun bounded => ?_⟩
  · have links := orderly.links linked
    exact ⟨links.refers, data ▸ links.data, links.supplied⟩
  · have writes := orderly.writes bounded
    have tidy := writes.tidy
    exact ⟨⟨⟨tidy.fit.machine, tidy.fit.highest, tidy.fit.kinds, tidy.fit.writes⟩, tidy.once, tidy.entered⟩,
      writes.done, writable ▸ writes.writable⟩

theorem lays_newLabel : Lays demand setting [] (liftM Emit.newLabel : Gen Label) setting.withLabel := by
  refine ⟨fun state orderly =>
    ⟨orderly.relabel ?_ rfl rfl rfl rfl rfl, .same rfl List.prefix_rfl (fun _ _ => id) rfl (.refl _) rfl⟩⟩
  let label := state.function.labelCount
  have labels := orderly.labels
  have same : (sites (setting.withLabel label) state.withLabel).Perm (label :: sites setting state) := by
    simp only [Setting.withLabel]
    exact List.perm_middle
  have fresh : label ∉ sites setting state := fun member => Nat.lt_irrefl _ (labels.handed label member)
  refine ⟨same.nodup_iff.mpr (List.nodup_cons.mpr ⟨fresh, labels.apart⟩), fun other member => ?_, fun other wanted => ?_,
    labels.breaks, labels.continues, labels.returns⟩
  · rcases List.mem_cons.mp (same.mem_iff.mp member) with rfl | old
    · exact Nat.lt_succ_self _
    · exact Nat.lt_succ_of_lt (labels.handed other old)
  · refine same.mem_iff.mpr ?_
    rcases wanted with known | jumped
    · rcases List.mem_cons.mp known with rfl | old
      · exact List.mem_cons_self
      · exact List.mem_cons_of_mem _ (labels.reached other (Or.inl old))
    · exact List.mem_cons_of_mem _ (labels.reached other (Or.inr jumped))

theorem Tidy.withTemp {limit : ArgumentLimit} {single : Prop} (tidy : Tidy limit single state.function)
    (writes : instr.def? = some state.function.registers.size) :
    Tidy limit single (state.withTemp.add instr).function := by
  have made : state.withTemp.function.registers =
      state.function.registers.push ⟨s!"T{state.function.tempCount}", .temp⟩ := rfl
  have larger : Tidy limit single state.withTemp.function :=
    tidy.withRegister made rfl rfl
  refine larger.push (fun register given => ?_) (fun _ register given _ => ?_) ?_
  · obtain rfl : _ = register := Option.some.inj (writes.symm.trans given)
    exact Or.inr ⟨tidy.fit.machine, by simp [made]⟩
  · obtain rfl : _ = register := Option.some.inj (writes.symm.trans given)
    intro old member oldWrites
    rcases tidy.fit.writes old member _ oldWrites with small | ⟨_, bound⟩
    · exact absurd (small.trans_lt limit.machine) (Nat.not_lt.mpr tidy.fit.machine)
    · exact Nat.lt_irrefl _ bound
  · rintro rfl
    cases writes

theorem lays_toTemp {instr : Reg → Instr} (plain : ∀ dest, placed? (instr dest) = none ∧ (instr dest).target? = none)
    (writes : ∀ dest, (instr dest).def? = some dest)
    (refers : demand.linked → ∀ state, Referring demand.table setting.data state → ∀ dest,
      Refers demand.table state.program (instr dest)) :
    Lays demand setting [] (liftM (Emit.toTemp instr) : Gen Reg) fun register => setting.holding [register] := by
  refine ⟨fun state orderly => ?_⟩
  have larger : state.withTemp.function.registers =
      state.function.registers.push ⟨s!"T{state.function.tempCount}", .temp⟩ := rfl
  have made : Orderly demand setting state.withTemp ∧ _ := orderly.same rfl rfl rfl rfl rfl ⟨_, (Array.toList_push ..).symm⟩
    (fun _ _ => id) (fun _ _ => Or.inl) fun tidy => tidy.withRegister rfl rfl rfl
  have added := made.1.add (plain state.function.registers.size).1 (fun label jumps => ?_)
    (fun linked => refers linked _ (made.1.links linked) _) fun bounded => (orderly.writes bounded).tidy.withTemp (writes _)
  · refine ⟨added.holding (List.forall_mem_singleton.mpr ?_), made.2.trans (proceeds_add ..)⟩
    exact Or.inr ⟨orderly.housed.machine, by simp [larger, State.add]⟩
  · rw [(plain _).2] at jumps
    cases jumps

theorem gives_toTemp {instr : Reg → Instr} (local_ : ∀ dest, isLocal (instr dest) = true)
    (writes : ∀ dest, (instr dest).def? = some dest) : Gives demand (liftM (Emit.toTemp instr) : Gen Reg) := by
  simp only [isLocal, Bool.and_eq_true, Option.isNone_iff_eq_none] at local_
  refine ⟨fun _ => lays_toTemp (fun dest => (local_ dest).1) writes fun _ _ _ dest => ?_⟩
  have given := local_ dest
  cases same : instr dest <;> first | trivial | simp [same] at given

theorem lays_address (member : data ∈ setting.data) :
    Lays demand setting [] (liftM (Emit.address data) : Gen Reg) fun register => setting.holding [register] :=
  lays_toTemp (fun _ => ⟨rfl, rfl⟩) (fun _ => rfl) fun _ _ links _ => links.data data member

theorem gives_alu (op : AluOp) (left right : Reg) : Gives demand (liftM (Emit.alu op left right) : Gen Reg) :=
  gives_toTemp (fun _ => rfl) fun _ => rfl

theorem gives_aluImm (op : AluOp) (left : Reg) (right : Int32) :
    Gives demand (liftM (Emit.aluImm op left right) : Gen Reg) :=
  gives_toTemp (fun _ => rfl) fun _ => rfl

theorem gives_constant (value : Int32) : Gives demand (liftM (Emit.constant value) : Gen Reg) :=
  gives_toTemp (fun _ => rfl) fun _ => rfl

theorem gives_copy (source : Reg) : Gives demand (liftM (Emit.copy source) : Gen Reg) :=
  gives_toTemp (fun _ => rfl) fun _ => rfl

theorem gives_load (size : MemSize) (base : Reg) (offset : Int32) :
    Gives demand (liftM (Emit.load size base offset) : Gen Reg) :=
  gives_toTemp (fun _ => rfl) fun _ => rfl

theorem gives_loadField (size : MemSize) (base : Reg) (field : FieldRef) :
    Gives demand (liftM (Emit.loadField size base field) : Gen Reg) :=
  gives_toTemp (fun _ => rfl) fun _ => rfl

theorem lays_zero {value : α} {after : α → Setting} (covers : (setting.writing [Reg.zero]).Covers (after value)) :
    Lays demand setting [] (pure value : Gen α) after := by
  refine ⟨fun state orderly => ⟨Orderly.forget (orderly.adding (fun _ => List.forall_mem_nil _) ?_ fun _ => ?_) covers,
    .refl state⟩⟩
  · exact List.forall_mem_singleton.mpr (Or.inl rfl)
  · exact List.forall_mem_singleton.mpr (Or.inl (Nat.zero_le _))

theorem gives_zero : Gives demand (pure Reg.zero : Gen Reg) :=
  ⟨fun _ => lays_zero (by constructor <;> simp +contextual)⟩

theorem lays_branchOn (op : AluOp) (left right : Reg) {target : Label} (known : target ∈ setting.known)
    (expected : Bool) : Lays demand setting [] (branchOn op left right target expected) fun _ => setting :=
  lays_jump rfl known

def IsCallee (table : Declarations) (target : String) : Prop :=
  (∃ routine : Routine, target = routine.name) ∨ IsFunctionLabel table target

theorem steady_addCall (callee : demand.linked → IsCallee demand.table target) (count : Nat)
    (returns : Bool) : Steady demand [] (liftM (Emit.add (.call target count returns)) : Gen Unit) := by
  refine ⟨fun _ => ⟨fun state orderly => ⟨orderly.add rfl (fun _ jumps => by cases jumps) callee
    (orderly.tidyAdd (fun register given => ?_) (by simp)), proceeds_add state _⟩⟩⟩
  cases returns <;> cases given
  exact Or.inr fun _ => demand.limit.result

theorem steady_passArguments (few : demand.bounded → arguments.length ≤ demand.limit.count) :
    Steady demand [] (Gen.passArguments arguments) := by
  refine .forM ?_
  rintro ⟨value, index⟩ member
  refine steady_setSmall rfl rfl fun bounded => ?_
  have bound := List.mem_zipIdx member
  have fits := few bounded
  change index + 1 ≤ _
  omega

theorem gives_call (callee : demand.linked → IsCallee demand.table target)
    (few : demand.bounded → arguments.length ≤ demand.limit.count) (returns : Bool) :
    Gives demand (Gen.call target arguments returns) := by
  refine .bind (steady_passArguments few) fun _ => ?_
  cases returns with
  | false =>
    change Gives demand ((liftM (Emit.add (.call target arguments.length false)) : Gen Unit) >>= fun _ => pure Reg.zero)
    exact .bind (steady_addCall callee _ _) fun _ => gives_zero
  | true =>
    change Gives demand ((liftM (Emit.add (.call target arguments.length true)) : Gen Unit) >>= fun _ =>
      liftM (Emit.copy Reg.result))
    exact .bind (steady_addCall callee _ _) fun _ => gives_copy _

theorem gives_callRoutine (routine : Routine) (few : arguments.length ≤ Reg.result)
    (returns : Bool) : Gives demand (Gen.callRoutine routine arguments returns) :=
  gives_call (fun _ => Or.inl ⟨routine, rfl⟩) (fun _ => few.trans demand.limit.result) returns

theorem gives_callRegister (target : Reg)
    (few : demand.bounded → arguments.length ≤ demand.limit.count) (returns : Bool) :
    Gives demand (Gen.callRegister target arguments returns) := by
  refine .bind (steady_passArguments few) fun _ => ?_
  cases returns with
  | false => exact .bind (steady_add rfl) fun _ => gives_zero
  | true => exact .bind (steady_setSmall rfl rfl fun _ => demand.limit.result) fun _ => gives_copy _

theorem Orderly.gain (orderly : Orderly demand setting state)
    (gains : Gains state.program program) (functions : program.functions = state.program.functions)
    (supplied : Supplied demand.table state.program →
      (∀ cls ∈ program.classes, ∃ id, cls = descriptor (demand.table.classDef id)) ∧
      (program.classes.map ClassDescriptor.name).Nodup ∧
      (∀ entry ∈ program.tables, Tables demand.table program.strings entry) ∧
      (program.tables.map EnumTable.label).Nodup) :
    Orderly demand setting { state with program := program } where
  labels := orderly.labels.same rfl rfl rfl
  links linked := by
    have links := orderly.links linked
    obtain ⟨classes, classesApart, tables, tablesApart⟩ := supplied links.supplied
    refine ⟨fun instr member => (links.refers instr member).mono gains, fun datum member =>
      (links.data datum member).mono gains, fun function member => ?_, classes, classesApart, tables, tablesApart⟩
    rw [functions] at member
    obtain ⟨joined, refers⟩ := links.supplied.done function member
    exact ⟨joined, fun instr inside => (refers instr inside).mono gains⟩
  housed := orderly.housed
  writes bounded := by
    have writes := orderly.writes bounded
    exact ⟨writes.tidy, functions ▸ writes.done, writes.writable⟩

theorem intern_spec (pool : StringPool) (text : String) :
    pool.texts.toList <+: (pool.intern text).2.texts.toList ∧
      (pool.intern text).2.texts[(pool.intern text).1]? = some text := by
  unfold StringPool.intern
  split
  · rename_i index found
    obtain ⟨front, back, parts, _⟩ := List.lookup_eq_some_iff.mp found
    have listed : (text, index) ∈ pool.texts.toList.zipIdx := by
      rw [← pool.listed, parts]
      simp
    exact ⟨List.prefix_rfl, by simpa using List.mk_mem_zipIdx_iff_getElem?.mp listed⟩
  · simp [StringPool.add]

def State.withStrings (state : State) (strings : StringPool) : State :=
  { state with program := { state.program with strings := strings } }

theorem Orderly.withStrings (orderly : Orderly demand setting state)
    (longer : state.program.strings.texts.toList <+: strings.texts.toList) :
    Orderly demand setting (state.withStrings strings) ∧ Proceeds demand.linked [] state (state.withStrings strings) :=
  have gains : Gains state.program (state.withStrings strings).program :=
    ⟨longer, List.Subset.refl _, List.Subset.refl _⟩
  ⟨orderly.gain gains rfl fun supplied => ⟨supplied.classes, supplied.classesApart,
    fun entry member => (supplied.tables entry member).mono longer, supplied.tablesApart⟩,
    .same rfl List.prefix_rfl (fun _ _ => id) rfl gains rfl⟩

theorem lays_intern (text : String) :
    Lays demand setting [] (Gen.intern text) fun index => setting.withData (.string index) := by
  refine ⟨fun state orderly => ?_⟩
  obtain ⟨longer, found⟩ := intern_spec state.program.strings text
  exact (orderly.withStrings longer).imp_left fun later => later.withData fun _ => (Array.getElem?_eq_some_iff.mp found).1

theorem tableEntries_apply (constants : List Constant) (state : State) :
    ∃ strings entries, constants.mapM Gen.tableEntry state = (entries, state.withStrings strings) ∧
      state.program.strings.texts.toList <+: strings.texts.toList ∧ List.Forall₂ (Words strings) entries constants := by
  induction constants generalizing state with
  | nil => exact ⟨state.program.strings, [], rfl, List.prefix_rfl, .nil⟩
  | cons constant rest ih =>
    have first : ∃ strings entry, Gen.tableEntry constant state = (entry, state.withStrings strings) ∧
        state.program.strings.texts.toList <+: strings.texts.toList ∧ Words strings entry constant := by
      cases constant with
      | int value type => exact ⟨state.program.strings, .int value, rfl, List.prefix_rfl, rfl⟩
      | real value => exact ⟨state.program.strings, .int value.word, rfl, List.prefix_rfl, rfl⟩
      | string text =>
        obtain ⟨longer, found⟩ := intern_spec state.program.strings text
        exact ⟨_, .string _, rfl, longer, found⟩
    obtain ⟨strings, entry, made, longer, word⟩ := first
    obtain ⟨lastStrings, entries, lastMade, lastLonger, words⟩ := ih (state.withStrings strings)
    refine ⟨lastStrings, entry :: entries, ?_, longer.trans lastLonger, .cons (word.mono lastLonger) words⟩
    rw [List.mapM_cons, bind_apply, made, bind_apply, lastMade]
    rfl

theorem lays_describeClass (id : ClassId) :
    Lays demand setting [] (Gen.describeClass (demand.table.classDef id)) fun _ =>
      setting.withData (.classDescriptor (demand.table.classDef id).ref.name) := by
  refine ⟨fun state orderly => ?_⟩
  let name := (demand.table.classDef id).ref.name
  change Orderly demand _ (if state.program.classes.any (·.name == name) then state else _) ∧
    Proceeds demand.linked [] state (if state.program.classes.any (·.name == name) then state else _)
  split
  · rename_i there
    refine ⟨orderly.withData fun _ => ?_, .refl state⟩
    obtain ⟨cls, member, same⟩ := List.any_eq_true.mp there
    exact ⟨cls, member, by simpa using same⟩
  · rename_i absent
    have gains : Gains state.program
        { state.program with classes := state.program.classes ++ [descriptor (demand.table.classDef id)] } :=
      ⟨List.prefix_rfl, List.subset_append_left _ _, List.Subset.refl _⟩
    refine ⟨(orderly.gain gains rfl fun supplied => ⟨?_, ?_, supplied.tables, supplied.tablesApart⟩).withData fun _ => ?_,
      .same rfl List.prefix_rfl (fun _ _ given => given) rfl gains rfl⟩
    · intro cls member
      rcases List.mem_append.mp member with old | new
      · exact supplied.classes cls old
      · exact ⟨id, List.mem_singleton.mp new⟩
    · rw [List.map_append]
      refine List.nodup_append.mpr ⟨supplied.classesApart, by simp, ?_⟩
      rintro name member other new rfl
      obtain ⟨cls, inside, rfl⟩ := List.mem_map.mp member
      refine absent (List.any_eq_true.mpr ⟨cls, inside, ?_⟩)
      simpa [descriptor] using new
    · exact ⟨descriptor (demand.table.classDef id), by simp, rfl⟩

theorem lays_enumTable {enum : EnumId} {column : Nat}
    (bound : demand.linked → column < (demand.table.enumDef enum).columns.length) :
    Lays demand setting [] (Gen.enumTable (demand.table.enumDef enum) column) setting.withData := by
  refine ⟨fun state orderly => ?_⟩
  cases looked : (demand.table.enumDef enum).columns[column]? with
  | none =>
    simp only [Gen.enumTable, looked]
    refine ⟨orderly.withData fun linked => ?_, .refl state⟩
    exact absurd (bound linked) (Nat.not_lt.mpr (List.getElem?_eq_none_iff.mp looked))
  | some found =>
  let data : StaticData := .enumTable (demand.table.enumDef enum).ref.name found.name
  have step : Gen.enumTable (demand.table.enumDef enum) column state =
      if state.program.tables.any (·.label == data.label) then (data, state)
      else
        let filled := found.values.mapM Gen.tableEntry state
        (data, { filled.2 with
          program := { filled.2.program with tables := filled.2.program.tables ++ [⟨data.label, filled.1⟩] } }) := by
    simp only [Gen.enumTable, looked]
    by_cases there : state.program.tables.any (·.label == data.label)
    · rw [if_pos there]
      exact congrFun (if_pos there) state
    · rw [if_neg there]
      exact congrFun (if_neg there) state
  rw [step]
  split
  · rename_i there
    refine ⟨orderly.withData fun _ => ?_, .refl state⟩
    obtain ⟨entry, member, same⟩ := List.any_eq_true.mp there
    exact ⟨entry, member, by simpa using same⟩
  · rename_i absent
    obtain ⟨strings, entries, filled, longer, words⟩ := tableEntries_apply found.values state
    simp only [filled]
    have gains : Gains (state.withStrings strings).program
        { (state.withStrings strings).program with
          tables := (state.withStrings strings).program.tables ++ [⟨data.label, entries⟩] } :=
      ⟨List.prefix_rfl, List.Subset.refl _, List.subset_append_left _ _⟩
    obtain ⟨before, follows⟩ := orderly.withStrings longer
    refine ⟨(before.gain gains rfl fun supplied => ⟨supplied.classes, supplied.classesApart, ?_, ?_⟩).withData fun _ => ?_,
      follows.trans (.same rfl List.prefix_rfl (fun _ _ => id) rfl gains rfl)⟩
    · intro entry member
      rcases List.mem_append.mp member with old | new
      · exact supplied.tables entry old
      · rw [List.mem_singleton.mp new]
        exact ⟨enum, found, List.mem_of_getElem? looked, rfl, words⟩
    · rw [List.map_append]
      refine List.nodup_append.mpr ⟨supplied.tablesApart, by simp, ?_⟩
      rintro label member other new rfl
      obtain ⟨entry, inside, rfl⟩ := List.mem_map.mp member
      refine absent (List.any_eq_true.mpr ⟨entry, inside, ?_⟩)
      simpa using new
    · exact ⟨⟨data.label, entries⟩, by simp, rfl⟩

end FplCompiler.Codegen
