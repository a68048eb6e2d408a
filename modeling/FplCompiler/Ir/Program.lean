import FplCompiler.Ir.Allocation

/-! A whole program in intermediate code, with the data that it refers to. -/

namespace FplCompiler.Ir

structure ClassDescriptor where
  name : String
  size : Nat
  deriving DecidableEq, Repr, Inhabited

inductive TableEntry where
  | int (value : Int32)
  | string (index : Nat)
  deriving DecidableEq, Repr, Inhabited

structure EnumTable where
  label : String
  entries : List TableEntry
  deriving DecidableEq, Repr, Inhabited

structure Program where
  functions : List Function := []
  strings : StringPool := .empty
  classes : List ClassDescriptor := []
  tables : List EnumTable := []
  globalsSize : Nat := 0
  deriving Repr, Inhabited

namespace Program

def dump (program : Program) : String :=
  String.join (program.functions.map Function.dump)

def finish (program : Program) : Except Failure Program := do
  return { program with functions := ← program.functions.mapM Function.finish }

end Program

end FplCompiler.Ir
