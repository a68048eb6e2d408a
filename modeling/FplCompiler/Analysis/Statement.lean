import FplCompiler.Analysis.Assignment
import FplCompiler.Analysis.Loop

/-! Statements are checked in order; each changes what is known at the next one. -/

namespace FplCompiler.Analysis

open Check

open Syntax (Stmt IfClause WhenClause)

def isPrintable : Ty → Bool
  | .int | .char | .string | .bool | .enumeration _ | .error => true
  | _ => false

def checkPrinted (argument : Syntax.Expr) : Check Typed.Expr := do
  let value ← checkValue argument
  if isPrintable value.type then return value
  else errorNode (.cannotPrint value.type.text) value.span

def checkFree (operand : Syntax.Expr) : Check Typed.Stmt := do
  let freed? ←
    match operand.shape with
    | .name name => lookupVariable name
    | _ => pure none
  let value ←
    match operand.shape with
    | .name name => checkName name operand.span true
    | _ => checkValue operand
  let inner := value.type.withoutNull
  if !inner.isHeapReference && !inner.isError then
    statement (.free (← errorNode (.cannotFree value.type.text) value.span))
  else
    match freed? with
    | some id =>
      if (← getFacts).isFreed id then report .possibleDoubleFree value.span
      modifyFacts (·.free id)
    | none => pure ()
    statement (.free value)

def isChoosable : Ty → Bool
  | .int | .string | .enumeration _ | .error => true
  | _ => false

def whenText : Constant → Check String
  | .int value (.enumeration enum) => do
    let values := (← getEnum enum.id).values
    if value < 0 then return toString value
    else return (values[value.toInt.toNat]?).getD (toString value)
  | .int value .char =>
    let code := value.toUInt32.toNat
    return if code.isValidChar then "'" ++ (Char.ofNat code).toString ++ "'" else toString value
  | constant => return constant.text

def checkDistinct (seen : List Constant) (value : Typed.Expr) : Check (List Constant) := do
  if value.type.isError then return seen
  else
    match value.constant? with
    | none =>
      report .notConstant value.span
      return seen
    | some constant =>
      if seen.any constant.same then
        report (.duplicateValue (← whenText constant)) value.span
        return seen
      else return constant :: seen

def checkWhenValues (expected? : Option Ty) : List Syntax.Expr → List Constant →
    Check (List Typed.Expr × List Constant)
  | [], seen => return ([], seen)
  | expr :: rest, seen => do
    let checked ← checkValue expr
    let value ←
      match expected? with
      | some expected => coerce expected checked
      | none => pure checked
    let seen ← checkDistinct seen value
    let (values, seen) ← checkWhenValues expected? rest seen
    return (value :: values, seen)

def isElse : WhenClause → Bool
  | .mk values _ _ => values.isEmpty

def functionAt? (span : Span) : Check (Option (FunctionId × ScopeId)) := do
  return (← get).functionAt.lookup span

/-- A function body, checked in the scope of the parameters. A function that gives a value back must not end. -/
def checkBody (id : FunctionId) (scope : ScopeId) (body : Check (List Typed.Stmt)) : Check Typed.Stmt := do
  let function ← getFunction id
  note ("checking " ++ function.label)
  let facts ← getFacts
  let outer := (← get).scopes.current
  setFacts .start
  enterScope scope
  let body ← inContext { returnType := some function.returnType } body
  if !(← getFacts).unreachable && function.returnType.isReturned then
    report (.missingReturn function.name) function.span
  setFacts facts
  enterScope outer
  statement (.functionBody id body)

def inBlock (kind : ScopeKind) (body : Check (List Typed.Stmt)) : Check (List Typed.Stmt) := do
  let _ ← openScope kind
  let body ← body
  closeScope
  return body

def checkWhile (condition : Syntax.Expr) (assigned : List Stmt) (body : Check (List Typed.Stmt)) :
    Check Typed.Stmt := do
  forgetAssigned assigned
  let branches ← (checkExpr condition).condition
  setFacts branches.whenTrue
  let (body, frame) ← inLoop (inBlock .loop body)
  let again : Facts Ty := .merge ((← getFacts) :: frame.continues)
  -- A loop whose condition cannot be false ends by a break only.
  let ends := if branches.whenFalse.unreachable then [] else [again]
  setFacts (.merge (branches.whenFalse :: frame.breaks ++ ends))
  statement (.whileLoop branches.condition body)

def checkRepeat (condition : Syntax.Expr) (assigned : List Stmt) (body : Check (List Typed.Stmt)) :
    Check Typed.Stmt := do
  forgetAssigned assigned
  let (body, frame) ← inLoop do
    let _ ← openScope .loop
    body
  modifyFacts fun facts => .merge (facts :: frame.continues)
  let branches ← (checkExpr condition).condition
  closeScope
  setFacts (.merge (branches.whenTrue :: frame.breaks))
  statement (.repeatLoop branches.condition body)

def checkFor (name : String) (iterable : Syntax.Expr) (span : Span) (assigned : List Stmt)
    (body : Check (List Typed.Stmt)) : Check Typed.Stmt := do
  let sequence ← checkIterable iterable
  let element ← loopVariableType sequence iterable.span
  forgetAssigned assigned
  let entry ← getFacts
  let ((id, body), frame) ← inLoop do
    let _ ← openScope .loop
    let id ← define ⟨name, span, element, false, .localVar⟩
    let body ← body
    closeScope
    return (id, body)
  modifyFacts fun facts => .merge (entry :: facts :: (frame.continues ++ frame.breaks))
  statement (.forLoop id sequence body)

mutual

def checkStmts : List Stmt → Check (List Typed.Stmt)
  | [] => return []
  | stmt :: rest => do
    let first ← checkStmt stmt
    let others ← checkStmts rest
    return first.toList ++ others

def checkStmt : Stmt → Check (Option Typed.Stmt)
  | .mk (.expression expression) _ => do
    return some (← statement (.expression (← checkValue expression)))
  | .mk (.assign operator target value) span => do return some (← checkAssign operator target value span)
  | .mk (.variableDecl decl) span => do return some (← checkVariable decl span)
  | .mk (.constDecl decl) span => do
    if (← get).scopes.currentKind ≠ .file then defineConstant decl span
    return none
  | .mk (.functionDecl _ body) span => do
    match ← functionAt? span with
    | some (id, scope) => return some (← checkBody id scope (checkStmts body))
    | none =>
      report .nestedFunction span
      return none
  | .mk (.classDecl _ body) span => do
    match (← get).foundClasses.find? (·.span = span) with
    | none => return none
    | some found =>
      match (← getClass found.ref.id).constructor? with
      | none => return none
      | some constructor =>
        let methods ← checkMethods body
        let fields := ((← get).fieldStatements.lookup found.ref.id).getD []
        return some (← statement (.classBody found.ref.id constructor fields methods))
  | .mk (.enumDecl _) _ => return none
  | .mk (.ifChain clauses) _ => do
    let (checked, ends) ← checkIfClauses clauses
    setFacts (.merge ends)
    return some (← statement (.ifChain checked))
  | .mk (.whileLoop condition body) _ => do return some (← checkWhile condition body (checkStmts body))
  | .mk (.repeatLoop body condition) _ => do return some (← checkRepeat condition body (checkStmts body))
  | .mk (.forLoop name iterable body) span => do
    return some (← checkFor name iterable span body (checkStmts body))
  | .mk (.whenCases subject clauses) _ => do
    let subject ← checkValue subject
    let choosable := isChoosable subject.type.promoted
    if !choosable then report (.invalidWhenType subject.type.text) subject.span
    let entry ← getFacts
    let expected? := if choosable then some subject.type else none
    let (checked, ends) ← checkWhenClauses expected? entry [] clauses
    setFacts (.merge (if clauses.any isElse then ends else ends ++ [entry]))
    return some (← statement (.whenCases subject checked))
  | .mk (.print arguments) _ => do return some (← statement (.print (← arguments.mapM checkPrinted)))
  | .mk (.free operand) _ => do return some (← checkFree operand)
  | .mk .missing _ => do return some (← statement .missing)

def checkMethods : List Stmt → Check (List Typed.Stmt)
  | [] => return []
  | .mk (.functionDecl _ body) span :: rest => do
    match ← functionAt? span with
    | some (id, scope) =>
      let method ← checkBody id scope (checkStmts body)
      return method :: (← checkMethods rest)
    | none => checkMethods rest
  | _ :: rest => checkMethods rest

def checkIfClauses : List IfClause → Check (List Typed.IfClause × List (Facts Ty))
  | [] => do return ([], [← getFacts])
  | .mk none body _ :: _ => do
    let body ← inBlock .block (checkStmts body)
    let end_ ← getFacts
    countNode
    return ([.mk none body], [end_])
  | .mk (some condition) body _ :: rest => do
    let branches ← (checkExpr condition).condition
    setFacts branches.whenTrue
    let body ← inBlock .block (checkStmts body)
    let end_ ← getFacts
    countNode
    setFacts branches.whenFalse
    let (clauses, ends) ← checkIfClauses rest
    return (.mk (some branches.condition) body :: clauses, end_ :: ends)

def checkWhenClauses (expected? : Option Ty) (entry : Facts Ty) (seen : List Constant) :
    List WhenClause → Check (List Typed.WhenClause × List (Facts Ty))
  | [] => return ([], [])
  | .mk values body span :: rest => do
    if values.isEmpty && !rest.isEmpty then report .elseNotLast span
    setFacts entry
    let (values, seen) ← checkWhenValues expected? values seen
    let body ← inBlock .block (checkStmts body)
    let end_ ← getFacts
    countNode
    let (clauses, ends) ← checkWhenClauses expected? entry seen rest
    return (.mk values body :: clauses, end_ :: ends)

end

end FplCompiler.Analysis
