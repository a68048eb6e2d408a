import FplCompiler.Analysis.State

/-! Conversions of values to expected types, and what an assignment tells of a variable. -/

namespace FplCompiler.Analysis

open Check

/-- Converts an expression to an expected type. A plain value becomes a union where one is expected, and what cannot be
stored there is reported. -/
def coerce (expected : Ty) (expression : Typed.Expr) : Check Typed.Expr := do
  let actual := expression.type
  if actual = expected || actual.isError || expected.isError then return expression
  if !expected.accepts actual then
    return ← errorNode (.typeMismatch expected.text actual.text) expression.span
  match expected, actual with
  | .errorUnion _, .errorUnion _ => return expression
  | .errorUnion _, _ => node (.makeUnion expression) expression.span expected
  | _, _ => return expression

def coerceAll (expected : Ty) (expressions : List Typed.Expr) : Check (List Typed.Expr) :=
  expressions.mapM (coerce expected)

def lookupThis : Check (Option SymbolId) := do
  match ← lookup "this" with
  | none => return none
  | some id =>
    match (← getSymbol id).kind with
    | .localVar => return some id
    | _ => return none

def storedType (value : Typed.Expr) : Ty :=
  match value.shape with
  | .makeUnion inner => inner.type
  | _ => value.type

/-- What holds after a variable of a declared type is assigned a value. Where a plain value is stored in a variable that
could hold null or an error, the variable is narrowed up to the next assignment. -/
def factsAfterAssign (facts : Facts Ty) (symbol : SymbolId) (declared stored : Ty) : Facts Ty :=
  let assigned := (facts.markSet symbol).reassign symbol
  if stored.isError then assigned.widen symbol
  else
    match declared, stored with
    | .nullable _, .null => assigned.narrow symbol .null
    | .nullable inner, _ | .errorUnion inner, _ =>
      if stored ≠ declared && inner.accepts stored then assigned.narrow symbol inner
      else assigned.widen symbol
    | _, _ => assigned.widen symbol

end FplCompiler.Analysis
