import FplCompiler.Analysis.Call

/-! New objects and arrays. -/

namespace FplCompiler.Analysis

open Check

def createObject (cls : ClassRef) (typeArguments : List Ty) (onStack : Bool) (span : Span)
    (checkArguments : Check (List Typed.Expr)) : Check Typed.Expr := do
  let type : Ty := .object cls typeArguments
  match (← getClass cls.id).constructor? with
  | none => errorNode (.notInstantiable type.text) span
  | some constructor =>
    let arguments ← checkArguments
    let generic := (← get).table.instantiate constructor []
    let bindings :=
      if !cls.parameters.isEmpty && cls.typeParameters = typeArguments then
        inferBindings generic.parameterTypes (arguments.map Typed.Expr.type)
      else type.bindings
    match ← resolveCall cls.name [generic.mapType bindings] arguments span with
    | .error error => return error
    | .ok (_, arguments) =>
      node (.createObject cls.id constructor arguments onStack) span (type.substitute bindings)

def checkFill (element : Ty) (span : Span) (checkBody : Check Typed.Expr) : Check Typed.Fill := do
  let _ ← openScope .block
  let it ← define ⟨"it", span, .int, false, .localVar⟩
  let body ← coerce element (← checkBody)
  closeScope
  return .each it body

def createArray (element : Ty) (onStack : Bool) (span : Span) (arguments : List Typed.Expr)
    (checkFill : Check Typed.Fill) : Check Typed.Expr := do
  match arguments with
  | [size] =>
    let size ← coerce .int size
    node (.createArray size (← checkFill) onStack) span (.array element)
  | _ => errorNode .arraySizeArguments span

def createNode (type : Ty) (onStack : Bool) (span : Span) (checkArguments : Check (List Typed.Expr))
    (fill : Ty → Check Typed.Fill) : Check Typed.Expr := do
  match type with
  | .error =>
    let _ ← checkArguments
    silentError "invalid new" span
  | .array element => createArray element onStack span (← checkArguments) (fill element)
  | .object cls typeArguments => createObject cls typeArguments onStack span checkArguments
  | _ => errorNode (.notInstantiable type.text) span

def createListNode (type : Ty) (elements : List Typed.Expr) (onStack : Bool) (span : Span) :
    Check Typed.Expr := do
  match type with
  | .array element => node (.arrayLiteral (← coerceAll element elements) onStack) span type
  | .error => silentError "invalid array" span
  | _ => errorNode (.notInstantiable type.text) span

end FplCompiler.Analysis
