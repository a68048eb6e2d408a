import FplCompiler.Codegen.Expression

/-! The code of loops. -/

namespace FplCompiler.Codegen

open Ir

def whileLoop (condition : ExprCode) (body : Gen Unit) : Gen Unit := do
  let again ← Emit.newLabel
  let done ← Emit.newLabel
  let test ← Emit.newLabel
  Emit.add (.jump test)
  Emit.add (.label again)
  let _ ← Gen.inLoop ⟨done, some test⟩ body
  Emit.add (.label test)
  condition.branch again true
  Emit.add (.jump done)
  Emit.add (.label done)

def repeatLoop (condition : ExprCode) (body : Gen Unit) : Gen Unit := do
  let again ← Emit.newLabel
  let done ← Emit.newLabel
  let test ← Emit.newLabel
  Emit.add (.label again)
  let _ ← Gen.inLoop ⟨done, some test⟩ body
  Emit.add (.label test)
  condition.branch again false
  Emit.add (.label done)

def countedLoop (counter limit : Reg) (op : AluOp) (step : Int32) (body : Gen Unit) : Gen Unit := do
  let again ← Emit.newLabel
  let done ← Emit.newLabel
  let test ← Emit.newLabel
  Emit.add (.jump test)
  Emit.add (.label again)
  match ← Gen.inLoop ⟨done, none⟩ body with
  | some ⟨_, some next⟩ => Emit.add (.label next)
  | _ => pure ()
  Emit.add (.move counter (← Emit.aluImm .addI counter step))
  Emit.add (.label test)
  Emit.add (.branch op counter limit again)
  Emit.add (.jump done)
  Emit.add (.label done)

def rangeStep : AluOp → Int32
  | .gtI | .gteI => -1
  | _ => 1

def forRange (table : Declarations) (symbol : SymbolId) (start stop : ExprCode) (op : AluOp) (body : Gen Unit) :
    Gen Unit := do
  let counter ← Gen.variableRegister table symbol
  Emit.add (.move counter (← start.value))
  let limit ← Emit.copy (← stop.value)
  countedLoop counter limit op (rangeStep op) body

def forIndex (table : Declarations) (symbol : SymbolId) (count : Reg) (element : Reg → Gen Reg) (body : Gen Unit) :
    Gen Unit := do
  let index ← Emit.newScratch
  Emit.add (.constant index 0)
  let variableReg ← Gen.variableRegister table symbol
  countedLoop index count .ltI 1 do
    Emit.add (.move variableReg (← element index))
    body

def forArray (table : Declarations) (symbol : SymbolId) (type : Ty) (iterable : ExprCode) (body : Gen Unit) :
    Gen Unit := do
  match type.element? with
  | none => pure ()
  | some element =>
    let sequence ← iterable.value
    let count ← elementCount type sequence
    let load (index : Reg) : Gen Reg := do
      Emit.load (memSize element) (← elementAddress element.size sequence index count) 0
    forIndex table symbol count load body

def iteration? (table : Declarations) (cls : ClassDef) : Option (FieldRef × FunctionDef) := do
  let size := table.symbol (← cls.members.lookup "size")
  let get := table.symbol (← cls.members.lookup "get")
  match size.kind, get.kind with
  | .field _ offset, .function (first :: _) => some (⟨size.name, offset⟩, table.function first.function)
  | _, _ => none

def forObject (table : Declarations) (symbol : SymbolId) (cls : ClassDef) (iterable : ExprCode) (body : Gen Unit) :
    Gen Unit := do
  match iteration? table cls with
  | none => pure ()
  | some (size, get) =>
    let object ← iterable.value
    let count ← Emit.loadField .word object size
    forIndex table symbol count (fun index => Gen.call get.label [object, index] true) body

def forLoop (table : Declarations) (symbol : SymbolId) (iterable : Typed.Expr) (body : Gen Unit) : Gen Unit :=
  match iterable with
  | .mk (.range start stop op) _ _ =>
    forRange table symbol (exprCode table start) (exprCode table stop) op body
  | .mk _ _ (.object cls _) => forObject table symbol (table.classDef cls.id) (exprCode table iterable) body
  | .mk _ _ type => forArray table symbol type (exprCode table iterable) body

end FplCompiler.Codegen
