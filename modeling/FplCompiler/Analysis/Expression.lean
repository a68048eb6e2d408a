import FplCompiler.Analysis.Condition
import FplCompiler.Analysis.Creation
import FplCompiler.Analysis.Jump
import FplCompiler.Analysis.TypeName

/-! Expressions and types are checked by their structure: each check is put together from those of the parts. -/

namespace FplCompiler.Analysis

open Check

open Syntax (Expr TypeExpr)

def valuesOf (checks : List ExprCheck) : Check (List Typed.Expr) :=
  checks.mapM ExprCheck.value

def checkBinary (operator : Syntax.BinaryOp) (span : Span) (left right : ExprCheck) : Check Typed.Expr := do
  let left ← left.value
  let right ← right.value
  binaryNode operator span left right

def checkNamedCall (name : String) (nameSpan span : Span) (arguments : List ExprCheck) : Check Typed.Expr := do
  let overloads? ←
    match ← lookup name with
    | none => pure none
    | some id =>
      match (← getSymbol id).kind with
      | .function overloads => pure (some (id, overloads))
      | _ => pure none
  match overloads? with
  | some (id, overloads) => callFunction id name overloads (← valuesOf arguments) nameSpan span
  | none =>
    let callee ← checkName name nameSpan false
    callValue callee (← valuesOf arguments) span

def checkNamedMember (objectName name : String) (objectSpan span : Span) : Check Typed.Expr := do
  match ← enumValue? objectName name span with
  | some value => return value
  | none => checkMember (← checkName objectName objectSpan false) name span

mutual

def checkExpr : Expr → ExprCheck
  | .mk (.literal value) span => ofValue (checkLiteral span value)
  | .mk (.name name) span => ofValue (checkName name span false)
  | .mk (.binary .and left right) span => ofCondition (checkAnd span (checkExpr left) (checkExpr right))
  | .mk (.binary .or left right) span => ofCondition (checkOr span (checkExpr left) (checkExpr right))
  | .mk (.binary .eq left right) span =>
    let check := checkBinary .eq span (checkExpr left) (checkExpr right)
    ⟨check, checkEquality true (testedForNull? left right) check⟩
  | .mk (.binary .neq left right) span =>
    let check := checkBinary .neq span (checkExpr left) (checkExpr right)
    ⟨check, checkEquality false (testedForNull? left right) check⟩
  | .mk (.binary operator left right) span =>
    ofValue (checkBinary operator span (checkExpr left) (checkExpr right))
  | .mk (.unary .not operand) span => ofCondition (checkNot span (checkExpr operand))
  | .mk (.unary .minus operand) span =>
    ofValue do minusNode span (← (checkExpr operand).value)
  | .mk (.index object index) span =>
    ofValue do
      let array ← (checkExpr object).value
      let index ← (checkExpr index).value
      indexNode span array index
  | .mk (.member (.mk (.name objectName) objectSpan) name) span =>
    ofValue (checkNamedMember objectName name objectSpan span)
  | .mk (.member object name) span =>
    ofValue do checkMember (← (checkExpr object).value) name span
  | .mk (.call (.mk (.name name) nameSpan) arguments) span =>
    ofValue (checkNamedCall name nameSpan span (checkExprs arguments))
  | .mk (.call (.mk (.member object name) memberSpan) arguments) span =>
    ofValue do
      callMember (← (checkExpr object).value) name memberSpan span (valuesOf (checkExprs arguments))
  | .mk (.call callee arguments) span =>
    ofValue do
      let callee ← (checkExpr callee).value
      callValue callee (← valuesOf (checkExprs arguments)) span
  | .mk (.range _ _ _) span => ofValue (errorNode .rangeOutsideFor span)
  | .mk (.cast operand target) span =>
    ofValue do
      let operand ← (checkExpr operand).value
      castNode span operand (← (checkType target).resolved)
  | .mk (.isTest operand target) span =>
    ofCondition (checkIs operand span (checkExpr operand).value (checkType target).resolved)
  | .mk (.conditional condition thenBranch elseBranch) span =>
    ofValue (checkConditional span (checkExpr condition) (checkExpr thenBranch) (checkExpr elseBranch))
  | .mk (.create type arguments .none onStack) span =>
    ofValue do
      createNode (← (checkType type).constructed) onStack span (valuesOf (checkExprs arguments))
        fun _ => pure .none
  | .mk (.create type arguments (.each body bodySpan) onStack) span =>
    ofValue do
      createNode (← (checkType type).constructed) onStack span (valuesOf (checkExprs arguments))
        fun element => checkFill element bodySpan (checkExpr body).value
  | .mk (.createList (.mk (.array none) typeSpan) elements onStack) span =>
    ofValue do
      match ← valuesOf (checkExprs elements) with
      | [] => errorNode (.wrongTypeArgumentCount "Array" 1 0) typeSpan
      | first :: others => createListNode (.array first.type) (first :: others) onStack span
  | .mk (.createList type elements onStack) span =>
    ofValue do
      let elements ← valuesOf (checkExprs elements)
      createListNode (← (checkType type).resolved) elements onStack span
  | .mk (.returnExpr none) span => ofValue (checkReturn span none)
  | .mk (.returnExpr (some value)) span =>
    ofValue do checkReturn span (some (← (checkExpr value).value))
  | .mk .breakExpr span => ofValue (checkBreak span)
  | .mk .continueExpr span => ofValue (checkContinue span)

def checkExprs : List Expr → List ExprCheck
  | [] => []
  | expr :: rest => checkExpr expr :: checkExprs rest

def checkType : TypeExpr → TypeCheck
  | .mk (.named name arguments) span =>
    let arguments := checkTypes arguments
    ⟨namedType name arguments span false, namedType name arguments span true⟩
  | .mk (.array none) span =>
    let check := errorType (.wrongTypeArgumentCount "Array" 1 0) span
    ⟨check, check⟩
  | .mk (.array (some element)) _ =>
    let check := do return Ty.array (← (checkType element).resolved)
    ⟨check, check⟩
  | .mk (.fixedArray element size) span =>
    let check := fixedArrayType (checkType element).resolved (checkExpr size).value span
    ⟨check, check⟩
  | .mk (.range element) _ =>
    let check := do return Ty.range (← (checkType element).resolved)
    ⟨check, check⟩
  | .mk (.nullable inner) _ =>
    let check := do return (← (checkType inner).resolved).orNull
    ⟨check, check⟩
  | .mk (.errorUnion inner) span =>
    let check := errorUnionType (checkType inner).resolved span
    ⟨check, check⟩

def checkTypes : List TypeExpr → List TypeCheck
  | [] => []
  | type :: rest => checkType type :: checkTypes rest

end

def checkValue (expr : Expr) : Check Typed.Expr :=
  (checkExpr expr).value

def resolveType (type : TypeExpr) : Check Ty :=
  (checkType type).resolved

end FplCompiler.Analysis
