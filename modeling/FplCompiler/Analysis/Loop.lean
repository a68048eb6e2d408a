import FplCompiler.Analysis.Expression

/-! What loops go over, and what they forget: a variable that a loop body assigns is not narrowed when the body starts
again. -/

namespace FplCompiler.Analysis

open Check

open Syntax (Stmt IfClause WhenClause)

mutual

def assignedNames : List Stmt → List String
  | [] => []
  | stmt :: rest => assignedNamesOf stmt ++ assignedNames rest

def assignedNamesOf : Stmt → List String
  | .mk (.assign _ (.mk (.name name) _) _) _ => [name]
  | .mk (.ifChain clauses) _ => assignedInClauses clauses
  | .mk (.whenCases _ clauses) _ => assignedInCases clauses
  | .mk (.whileLoop _ body) _ => assignedNames body
  | .mk (.repeatLoop body _) _ => assignedNames body
  | .mk (.forLoop _ _ body) _ => assignedNames body
  | _ => []

def assignedInClauses : List IfClause → List String
  | [] => []
  | .mk _ body _ :: rest => assignedNames body ++ assignedInClauses rest

def assignedInCases : List WhenClause → List String
  | [] => []
  | .mk _ body _ :: rest => assignedNames body ++ assignedInCases rest

end

def forgetAssigned (body : List Stmt) : Check Unit :=
  (assignedNames body).forM fun name => do
    match ← lookup name with
    | some id => modifyFacts (·.widen id)
    | none => pure ()

def isGetter (function : FunctionInstance) : Bool :=
  function.parameterTypes = [.int]

def elementOfClass? (cls : ClassRef) : Check (Option Ty) := do
  match ← classMember? cls "size", ← classMember? cls "get" with
  | some (_, size), some (_, get) =>
    match size.kind, size.type, get.kind with
    | .field _ _, .int, .function overloads => return (overloads.find? isGetter).map (·.returnType)
    | _, _, _ => return none
  | _, _ => return none

def iterationElement? (type : Ty) : Check (Option Ty) := do
  match type with
  | .error => return some .error
  | .range element | .array element | .inlineArray element _ => return some element
  | .string => return some .char
  | .object cls _ => elementOfClass? cls
  | _ => return none

def checkIterable (iterable : Syntax.Expr) : Check Typed.Expr := do
  match iterable.shape with
  | .range start stop operator =>
    let start ← checkValue start
    let stop ← checkValue stop
    rangeNode operator iterable.span start stop
  | _ => checkValue iterable

def loopVariableType (iterable : Typed.Expr) (span : Span) : Check Ty := do
  match ← iterationElement? iterable.type with
  | some element => return element
  | none => errorType (.cannotIterate iterable.type.text) span

end FplCompiler.Analysis
