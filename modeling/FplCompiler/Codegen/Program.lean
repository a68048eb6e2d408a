import FplCompiler.Analysis.Program
import FplCompiler.Codegen.Statement

/-! The code of a whole program. -/

namespace FplCompiler

structure Generated where
  program : Ir.Program
  trace : List String

namespace Codegen

def fileCode (table : Declarations) (file : Typed.FileTree) : Gen Unit := do
  Gen.note ("file " ++ file.name)
  blockCode table file.statements

def programCode (analyzed : Analyzed) : Gen Unit := do
  let files := analyzed.program.forM (fileCode analyzed.table)
  match analyzed.topFunction with
  | none => files
  | some id =>
    modify fun state => { state with function := .empty (analyzed.table.function id).label false }
    Ir.Emit.add .start
    files
    Gen.finishFunction
    modify fun state =>
      { state with program := { state.program with functions := state.function :: state.program.functions } }

def generate (analyzed : Analyzed) : Generated :=
  let start : State :=
    { program := { globalsSize := analyzed.globalsSize }
      function := .empty Analysis.topName false
      loop := none
      trace := [] }
  let (_, state) := programCode analyzed start
  ⟨state.program, state.trace.reverse⟩

end Codegen

end FplCompiler
