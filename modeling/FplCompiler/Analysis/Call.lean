import FplCompiler.Analysis.Member
import FplCompiler.Analysis.Name
import FplCompiler.Analysis.Overload

/-! Calls of functions, methods and values. -/

namespace FplCompiler.Analysis

open Check

def coerceEach : List Ty → List Typed.Expr → Check (List Typed.Expr)
  | parameter :: parameters, argument :: arguments => do
    let first ← coerce parameter argument
    return first :: (← coerceEach parameters arguments)
  | _, _ => return []

def packArguments (function : FunctionInstance) (arguments : List Typed.Expr) (span : Span) :
    Check (List Typed.Expr) := do
  if function.isVararg then
    match function.parameterTypes.getLast? with
    | none => return []
    | some element =>
      let fixed := function.parameterTypes.dropLast
      let first ← coerceEach fixed arguments
      let elements ← coerceAll element (arguments.drop fixed.length)
      return first ++ [← node (.arrayLiteral elements true) span (.array element)]
  else coerceEach function.parameterTypes arguments

def resolveCall (name : String) (candidates : List FunctionInstance) (arguments : List Typed.Expr)
    (span : Span) : Check (Except Typed.Expr (FunctionInstance × List Typed.Expr)) := do
  let types := arguments.map Typed.Expr.type
  match resolveOverload candidates types with
  | .found function => return .ok (function, ← packArguments function arguments span)
  | .noMatch =>
    if types.any Ty.isError then return .error (← silentError ("no match for " ++ name) span)
    else
      let signatures := candidates.map FunctionInstance.signature
      return .error (← errorNode (.noMatchingFunction (callText name types) signatures) span)
  | .ambiguous found =>
    let signatures := found.map FunctionInstance.signature
    return .error (← errorNode (.ambiguousCall (callText name types) signatures) span)

def callFunction (symbol : SymbolId) (name : String) (overloads : List FunctionInstance)
    (arguments : List Typed.Expr) (nameSpan span : Span) : Check Typed.Expr := do
  match ← resolveCall name overloads arguments span with
  | .error error => return error
  | .ok (function, arguments) =>
    if (← getFunction function.function).owner.isSome then
      match ← lookupThis with
      | none => errorNode (.notAValue name) nameSpan
      | some this =>
        node (.methodCall (← thisNode this nameSpan) function.function arguments) span function.returnType
    else
      let callee ← node (.functionName symbol function.function) nameSpan (functionType function)
      node (.call callee arguments) span function.returnType

def callValue (callee : Typed.Expr) (arguments : List Typed.Expr) (span : Span) : Check Typed.Expr := do
  match callee.type with
  | .function parameters result isVararg =>
    let function : FunctionInstance := ⟨0, "", parameters, none, isVararg, result, []⟩
    match ← resolveCall callee.type.text [function] arguments span with
    | .error error => return error
    | .ok (_, arguments) => node (.callValue callee arguments) span result
  | .error => return callee
  | type => errorNode (.notCallable type.text) span

def methods? (type : Ty) (name : String) : Check (Option (List FunctionInstance)) := do
  match type with
  | .object cls _ =>
    match ← classMember? cls name with
    | some (_, symbol) =>
      match symbol.kind with
      | .function overloads => return some overloads
      | _ => return none
    | none => return none
  | _ => return none

def callMember (object : Typed.Expr) (name : String) (memberSpan span : Span)
    (checkArguments : Check (List Typed.Expr)) : Check Typed.Expr := do
  let error? ← accessError? object name memberSpan
  let arguments ← checkArguments
  match error? with
  | some error => return error
  | none =>
    match ← methods? object.type name with
    | none => callValue (← memberNode object name memberSpan) arguments span
    | some methods =>
      let candidates := methods.map (·.mapType object.type.bindings)
      match ← resolveCall name candidates arguments span with
      | .error error => return error
      | .ok (function, arguments) =>
        node (.methodCall object function.function arguments) span function.returnType

end FplCompiler.Analysis
