import FplCompiler.Declaration.Table
import FplCompiler.Ir.Program

/-! The state of code generation: the program so far, the function that code is added to, and the labels of the
innermost loop. -/

namespace FplCompiler.Codegen

open Ir

inductive Routine where
  | printInt | printChar | printString | printBool
  | mallocArray | mallocObject | free | strcmp
  deriving DecidableEq, Repr

def Routine.name : Routine → String
  | printInt => "printInt"
  | printChar => "printChar"
  | printString => "printString"
  | printBool => "printBool"
  | mallocArray => "mallocArray"
  | mallocObject => "mallocObject"
  | free => "free"
  | strcmp => "strcmp"

/-- Where a loop is left and where its next pass starts. The second label of a counted loop is made when the body
needs it. -/
structure LoopLabels where
  breakLabel : Label
  continueLabel : Option Label
  deriving DecidableEq, Repr

structure State where
  program : Ir.Program
  function : Ir.Function
  loop : Option LoopLabels
  trace : List String

abbrev Gen := StateM State

namespace Gen

def emit {α : Type} (step : Emit α) : Gen α :=
  fun ⟨program, function, loop, trace⟩ =>
    let (value, function) := step function
    (value, ⟨program, function, loop, trace⟩)

instance : MonadLift Emit Gen :=
  ⟨emit⟩

def note (line : String) : Gen Unit :=
  modify fun state => { state with trace := line :: state.trace }

def intern (text : String) : Gen Nat :=
  modifyGet fun state =>
    let (index, strings) := state.program.strings.intern text
    (index, { state with program := { state.program with strings := strings } })

def describeClass (cls : ClassDef) : Gen Unit :=
  modify fun state =>
    if state.program.classes.any (·.name == cls.ref.name) then state
    else
      let described := state.program.classes ++ [⟨cls.ref.name, cls.layout.used⟩]
      { state with program := { state.program with classes := described } }

def tableEntry : Constant → Gen TableEntry
  | .int value _ => return .int value
  | .real value => return .int value.word
  | .string value => return .string (← intern value)

def enumTable (enum : EnumDef) (column : Nat) : Gen StaticData := do
  match enum.columns[column]? with
  | none => return .enumTable enum.ref.name ""
  | some column =>
    let data : StaticData := .enumTable enum.ref.name column.name
    unless (← get).program.tables.any (·.label == data.label) do
      let entries ← column.values.mapM tableEntry
      modify fun state =>
        let tables := state.program.tables ++ [⟨data.label, entries⟩]
        { state with program := { state.program with tables := tables } }
    return data

def variableRegister (table : Declarations) (symbol : SymbolId) : Gen Reg :=
  Emit.variableRegister symbol (table.symbol symbol).name

def passArguments (arguments : List Reg) : Gen Unit :=
  arguments.zipIdx.forM fun (value, index) => Emit.add (.move (Reg.argument index) value)

def call (target : String) (arguments : List Reg) (returns : Bool) : Gen Reg := do
  passArguments arguments
  return (← Emit.call target arguments.length returns).getD Reg.zero

def callRoutine (routine : Routine) (arguments : List Reg) (returns : Bool) : Gen Reg :=
  call routine.name arguments returns

def callRegister (target : Reg) (arguments : List Reg) (returns : Bool) : Gen Reg := do
  passArguments arguments
  Emit.add (.callRegister target arguments.length returns)
  if returns then Emit.copy Reg.result else return Reg.zero

def compareStrings (left right : Reg) : Gen Reg :=
  callRoutine .strcmp [left, right] true

def inLoop (labels : LoopLabels) (step : Gen Unit) : Gen (Option LoopLabels) := do
  let outer := (← get).loop
  modify fun state => { state with loop := some labels }
  step
  let inner := (← get).loop
  modify fun state => { state with loop := outer }
  return inner

def continueLabel? : Gen (Option Label) := do
  match (← get).loop with
  | none => return none
  | some ⟨_, some target⟩ => return some target
  | some ⟨breakLabel, none⟩ =>
    let target ← Emit.newLabel
    modify fun state => { state with loop := some ⟨breakLabel, some target⟩ }
    return some target

def finishFunction : Gen Unit := do
  Emit.add (.label Function.returnLabel)
  Emit.add (.ret (← get).function.returnsValue)

def inFunction (function : Ir.Function) (step : Gen Unit) : Gen Unit := do
  let outer := (← get).function
  let outerLoop := (← get).loop
  modify fun state => { state with function := function, loop := none }
  Emit.add .start
  step
  finishFunction
  modify fun state =>
    { state with
      program := { state.program with functions := state.program.functions ++ [state.function] }
      function := outer
      loop := outerLoop }

end Gen

end FplCompiler.Codegen
