import FplCompiler.Analysis.State
import FplCompiler.Typed.Folding

/-! The meaning of types as they are written. -/

namespace FplCompiler.Analysis

open Check

def errorType (cause : Cause) (span : Span) : Check Ty := do
  report cause span
  return .error

/-- The ways to understand a written type: on its own, and as the type of a new object, which may leave out its type
arguments. -/
structure TypeCheck where
  resolved : Check Ty
  constructed : Check Ty

def namedType (name : String) (arguments : List TypeCheck) (span : Span) (mayOmit : Bool) : Check Ty := do
  match ← lookup name with
  | none => errorType (.unknownType name) span
  | some id =>
    let symbol ← getSymbol id
    match symbol.kind with
    | .typeName =>
      let expected :=
        match symbol.type with
        | .object cls _ => cls.parameters.length
        | _ => 0
      if arguments.isEmpty && (expected = 0 || mayOmit) then return symbol.type
      else if arguments.length ≠ expected then
        errorType (.wrongTypeArgumentCount name expected arguments.length) span
      else
        let types ← arguments.mapM TypeCheck.resolved
        match symbol.type with
        | .object cls _ => return .object cls types
        | type => return type
    | _ => errorType (.notAType name) span

def fixedArrayType (element : Check Ty) (size : Check Typed.Expr) (span : Span) : Check Ty := do
  let element ← element
  let size ← inContext {} size
  match size.constant? with
  | some (.int value _) =>
    if 0 ≤ value then return .inlineArray element value.toInt.toNat else errorType .notConstant span
  | _ => errorType .notConstant span

def errorUnionType (inner : Check Ty) (span : Span) : Check Ty := do
  let inner ← inner
  if inner.fitsErrorUnion then return inner.orError else errorType (.invalidErrorUnion inner.text) span

end FplCompiler.Analysis
