import FplCompiler.Analysis.Name
import FplCompiler.Analysis.Operator

/-! Conditions: what holds if they are true and what holds if they are false. -/

namespace FplCompiler.Analysis

open Check

structure Branches where
  condition : Typed.Expr
  whenTrue : Facts Ty
  whenFalse : Facts Ty

/-- The ways to check an expression: as a value, and as a condition. -/
structure ExprCheck where
  value : Check Typed.Expr
  condition : Check Branches

def plainCondition (check : Check Typed.Expr) : Check Branches := do
  let expression ← check
  let facts ← getFacts
  if expression.type ≠ .bool && !expression.type.isError then
    let error ← errorNode (.typeMismatch Ty.bool.text expression.type.text) expression.span
    return ⟨error, facts, facts⟩
  else
    match expression with
    | .mk (.int value) _ .bool =>
      if value = 0 then return ⟨expression, facts.setUnreachable, facts⟩
      else return ⟨expression, facts, facts.setUnreachable⟩
    | _ => return ⟨expression, facts, facts⟩

def ofValue (check : Check Typed.Expr) : ExprCheck :=
  ⟨check, plainCondition check⟩

def ofCondition (check : Check Branches) : ExprCheck where
  value := do
    let branches ← check
    setFacts (.merge [branches.whenTrue, branches.whenFalse])
    return branches.condition
  condition := check

def checkAnd (span : Span) (left right : ExprCheck) : Check Branches := do
  let first ← left.condition
  setFacts first.whenTrue
  let second ← right.condition
  let expression ← node (.and first.condition second.condition) span .bool
  return ⟨expression, second.whenTrue, .merge [first.whenFalse, second.whenFalse]⟩

def checkOr (span : Span) (left right : ExprCheck) : Check Branches := do
  let first ← left.condition
  setFacts first.whenFalse
  let second ← right.condition
  let expression ← node (.or first.condition second.condition) span .bool
  return ⟨expression, .merge [first.whenTrue, second.whenTrue], second.whenFalse⟩

def checkNot (span : Span) (operand : ExprCheck) : Check Branches := do
  let branches ← operand.condition
  let expression ← node (.not branches.condition) span .bool
  return ⟨expression, branches.whenFalse, branches.whenTrue⟩

def comparedWithNull? (left right : Syntax.Expr) : Option String :=
  match left.shape, right.shape with
  | .name name, .name "null" => some name
  | .name "null", .name name => some name
  | _, _ => none

def testedForNull? (left right : Syntax.Expr) : Check (Option (SymbolId × Ty)) := do
  match comparedWithNull? left right with
  | none => return none
  | some name =>
    match ← lookupVariable name with
    | none => return none
    | some id =>
      match (← getFacts).typeOf id (← getSymbol id).type with
      | .nullable inner => return some (id, inner)
      | _ => return none

def checkEquality (isEqual : Bool) (tested? : Check (Option (SymbolId × Ty)))
    (check : Check Typed.Expr) : Check Branches := do
  match ← tested? with
  | none => plainCondition check
  | some (id, inner) =>
    let expression ← check
    let facts ← getFacts
    let whenNull := facts.narrow id .null
    let whenValue := facts.narrow id inner
    if isEqual then return ⟨expression, whenNull, whenValue⟩ else return ⟨expression, whenValue, whenNull⟩

/-- What a variable is if it fails a test. A test of a union for any enum is one for an error; a test of what may be null
for the type itself fails for null alone. -/
def complement? (current target : Ty) : Option Ty :=
  match current, target with
  | .errorUnion inner, .enumeration _ => some inner
  | .nullable inner, _ => if inner = target then some .null else none
  | _, _ => none

def isTestable : Ty → Bool
  | .nullable _ | .errorUnion _ | .any | .error => true
  | _ => false

def checkIs (operand : Syntax.Expr) (span : Span) (check : Check Typed.Expr) (resolve : Check Ty) :
    Check Branches := do
  let expression ← check
  let target ← resolve
  if !isTestable expression.type then
    let error ← errorNode (.invalidIsTest expression.type.text) span
    let facts ← getFacts
    return ⟨error, facts, facts⟩
  else
    let test ← node (.isTest expression target) span .bool
    let facts ← getFacts
    let tested? ←
      match operand.shape with
      | .name name => lookupVariable name
      | _ => pure none
    match tested? with
    | none => return ⟨test, facts, facts⟩
    | some id =>
      if target.isError then return ⟨test, facts, facts⟩
      else
        let current := facts.typeOf id (← getSymbol id).type
        let whenFalse :=
          match complement? current target with
          | some rest => facts.narrow id rest
          | none => facts
        return ⟨test, facts.narrow id target, whenFalse⟩

def checkConditional (span : Span) (condition thenBranch elseBranch : ExprCheck) : Check Typed.Expr := do
  let branches ← condition.condition
  setFacts branches.whenTrue
  let thenValue ← thenBranch.value
  let afterThen ← getFacts
  setFacts branches.whenFalse
  let elseValue ← elseBranch.value
  modifyFacts fun afterElse => .merge [afterThen, afterElse]
  conditionalNode span branches.condition thenValue elseValue

end FplCompiler.Analysis
