import FplCompiler.Analysis.Declare
import FplCompiler.Analysis.Statement
import FplCompiler.Typed.Dump

/-! The analysis of a whole program. -/

namespace FplCompiler

structure Analyzed where
  program : Typed.Program
  table : Declarations
  diagnostics : List Diagnostic
  globalsSize : Nat
  topFunction : Option FunctionId
  nodeCount : Nat
  trace : List String

namespace Analyzed

def hasErrors (analyzed : Analyzed) : Bool :=
  analyzed.diagnostics.any Diagnostic.isError

def dump (analyzed : Analyzed) : String :=
  Typed.dump analyzed.table analyzed.program

end Analyzed

namespace Analysis

open Check

def topName : String := "<top>"

def defineBuiltins : Check Unit := do
  let size ← addSymbol ⟨"size", .nowhere, .int, false, .field none sizeFieldOffset⟩
  modify fun state => { state with sizeSymbol := size }
  [Ty.int, .char, .real, .string, .bool, .unit, .any, .nothing].forM fun type => do
    let _ ← define ⟨type.text, .nowhere, type, false, .typeName⟩
  [("null", 0, Ty.null), ("true", 1, .bool), ("false", 0, .bool)].forM fun (name, value, type) => do
    let _ ← define ⟨name, .nowhere, type, false, .constant (.int value type)⟩

def isExecutable (stmt : Syntax.Stmt) : Bool :=
  match stmt.shape with
  | .functionDecl _ _ | .classDecl _ _ | .enumDecl _ | .constDecl _ | .missing => false
  | _ => true

def ensureTopFunction : Check Unit := do
  if (← get).topFunction.isNone then
    let id ← addFunction ⟨topName, topName, .nowhere, [], none, false, .unit, none, false⟩
    modify fun state => { state with topFunction := some id }

def checkFile (file : Syntax.FileTree) (scope : ScopeId) : Check Typed.FileTree := do
  if file.statements.any isExecutable then ensureTopFunction
  enterScope scope
  setFacts .start
  let statements ← inContext {} (checkStmts file.statements)
  countNode
  return ⟨file.name, statements⟩

def checkProgram (files : List Syntax.FileTree) : Check Typed.Program := do
  defineBuiltins
  declareAll files
  let table := (← get).table
  note s!"{table.symbols.size} symbols, {table.functions.size} functions identified"
  let program ← (files.zip (← get).fileScopes).mapM fun (file, scope) => checkFile file scope
  countNode
  return program

def analyze (sources : SourceMap) (files : List Syntax.FileTree) : Analyzed :=
  let (program, state) := (checkProgram files).run { sources := sources }
  { program := program
    table := state.table
    diagnostics := state.diagnostics.toList
    globalsSize := state.globals.used
    topFunction := state.topFunction
    nodeCount := state.nodeCount
    trace := state.trace.toList }

end Analysis

end FplCompiler
