import FplCompiler.Alu
import FplCompiler.Declaration.Symbol

/-! Typed trees: what a program means once its names are understood. Every expression has a type, conversions are
written out, and calls name the function that they reach. -/

namespace FplCompiler.Typed

mutual

inductive Expr where
  | mk (shape : ExprShape) (span : Span) (type : Ty)

inductive ExprShape where
  | int (value : Int32)
  | real (value : Double)
  | string (value : String)
  | localVar (symbol : SymbolId)
  | globalVar (symbol : SymbolId)
  | functionName (symbol : SymbolId) (function : FunctionId)
  | binary (op : AluOp) (left right : Expr)
  | and (left right : Expr)
  | or (left right : Expr)
  | not (operand : Expr)
  | minus (operand : Expr)
  | index (array index : Expr)
  | member (object : Expr) (field : SymbolId)
  | enumData (value : Expr) (enum : EnumId) (column : Nat)
  | returnExpr (value : Option Expr)
  | breakExpr
  | continueExpr
  | conditional (condition thenBranch elseBranch : Expr)
  | range (start stop : Expr) (op : AluOp)
  | call (callee : Expr) (arguments : List Expr)
  | methodCall (receiver : Expr) (function : FunctionId) (arguments : List Expr)
  | callValue (callee : Expr) (arguments : List Expr)
  | createObject (classId : ClassId) (constructor : FunctionId) (arguments : List Expr) (onStack : Bool)
  | createArray (size : Expr) (fill : Fill) (onStack : Bool)
  | arrayLiteral (elements : List Expr) (onStack : Bool)
  | cast (operand : Expr)
  | isTest (operand : Expr) (target : Ty)
  | makeUnion (operand : Expr)
  | unwrap (operand : Expr)
  | error (message : String)

inductive Fill where
  | none
  | each (index : SymbolId) (body : Expr)

end

instance : Inhabited Expr :=
  ⟨.mk (.error "") .nowhere .error⟩

def Expr.shape : Expr → ExprShape
  | .mk shape _ _ => shape

def Expr.span : Expr → Span
  | .mk _ span _ => span

def Expr.type : Expr → Ty
  | .mk _ _ type => type

inductive AssignOp where
  | replace | add | subtract
  deriving DecidableEq, Repr

def AssignOp.alu : AssignOp → AluOp
  | replace => .eqI
  | add => .addI
  | subtract => .subI

def AssignOp.symbol : AssignOp → String
  | replace => "="
  | add => "+="
  | subtract => "-="

mutual

inductive Stmt where
  | expression (expression : Expr)
  | assign (op : AssignOp) (target value : Expr)
  | declare (symbol : SymbolId) (value : Option Expr)
  | free (operand : Expr)
  | print (arguments : List Expr)
  | ifChain (clauses : List IfClause)
  | whileLoop (condition : Expr) (body : List Stmt)
  | repeatLoop (condition : Expr) (body : List Stmt)
  | forLoop (symbol : SymbolId) (iterable : Expr) (body : List Stmt)
  | whenCases (subject : Expr) (clauses : List WhenClause)
  | functionBody (function : FunctionId) (body : List Stmt)
  | classBody (classId : ClassId) (constructor : FunctionId) (body : List Stmt) (methods : List Stmt)
  | missing
  | error (message : String)

inductive IfClause where
  | mk (condition : Option Expr) (body : List Stmt)

inductive WhenClause where
  | mk (values : List Expr) (body : List Stmt)

end

structure FileTree where
  name : String
  statements : List Stmt

abbrev Program := List FileTree

end FplCompiler.Typed
