import FplCompiler.Number.Real
import FplCompiler.Source.Span

/-! Syntax trees: what a program says, before any name in it is understood. -/

namespace FplCompiler.Syntax

inductive Literal where
  | int (value : Int32)
  | real (value : Double)
  | char (value : Char)
  | string (value : String)

inductive BinaryOp where
  | plus | minus | star | slash | percent | left | right | amp | bar | caret
  | lt | gt | lte | gte | eq | neq | and | or
  deriving DecidableEq, Repr

def BinaryOp.symbol : BinaryOp → String
  | plus => "+"
  | minus => "-"
  | star => "*"
  | slash => "/"
  | percent => "%"
  | left => "<<"
  | right => ">>"
  | amp => "&"
  | bar => "|"
  | caret => "^"
  | lt => "<"
  | gt => ">"
  | lte => "<="
  | gte => ">="
  | eq => "="
  | neq => "!="
  | and => "and"
  | or => "or"

def BinaryOp.name : BinaryOp → String
  | plus => "PLUS"
  | minus => "MINUS"
  | star => "STAR"
  | slash => "SLASH"
  | percent => "PERCENT"
  | left => "LEFT"
  | right => "RIGHT"
  | amp => "AMP"
  | bar => "BAR"
  | caret => "CARET"
  | lt => "LT"
  | gt => "GT"
  | lte => "LTE"
  | gte => "GTE"
  | eq => "EQ"
  | neq => "NEQ"
  | and => "AND"
  | or => "OR"

inductive UnaryOp where
  | minus | not
  deriving DecidableEq, Repr

inductive RangeOp where
  | lt | lte | gt | gte
  deriving DecidableEq, Repr

def RangeOp.name : RangeOp → String
  | lt => "LT"
  | lte => "LTE"
  | gt => "GT"
  | gte => "GTE"

mutual

inductive Expr where
  | mk (shape : ExprShape) (span : Span)

inductive ExprShape where
  | literal (value : Literal)
  | name (name : String)
  | binary (operator : BinaryOp) (left right : Expr)
  | unary (operator : UnaryOp) (operand : Expr)
  | index (object index : Expr)
  | member (object : Expr) (name : String)
  | call (callee : Expr) (arguments : List Expr)
  | range (start stop : Expr) (operator : RangeOp)
  | cast (operand : Expr) (target : TypeExpr)
  | isTest (operand : Expr) (target : TypeExpr)
  | conditional (condition thenBranch elseBranch : Expr)
  | create (type : TypeExpr) (arguments : List Expr) (fill : Fill) (onStack : Bool)
  | createList (type : TypeExpr) (elements : List Expr) (onStack : Bool)
  | returnExpr (value : Option Expr)
  | breakExpr
  | continueExpr

inductive Fill where
  | none
  | each (body : Expr) (span : Span)

inductive TypeExpr where
  | mk (shape : TypeShape) (span : Span)

inductive TypeShape where
  | named (name : String) (arguments : List TypeExpr)
  | array (element : Option TypeExpr)
  | fixedArray (element : TypeExpr) (size : Expr)
  | range (element : TypeExpr)
  | nullable (inner : TypeExpr)
  | errorUnion (inner : TypeExpr)

end

def Expr.shape : Expr → ExprShape
  | .mk shape _ => shape

def Expr.span : Expr → Span
  | .mk _ span => span

def TypeExpr.shape : TypeExpr → TypeShape
  | .mk shape _ => shape

def TypeExpr.span : TypeExpr → Span
  | .mk _ span => span

inductive AssignOp where
  | assign | add | subtract
  deriving DecidableEq, Repr

inductive ParameterKind where
  | plain | val | var
  deriving DecidableEq, Repr

structure Parameter where
  kind : ParameterKind
  name : String
  type : TypeExpr
  span : Span

structure EnumValue where
  name : String
  arguments : List Expr
  span : Span

structure FunctionHead where
  name : String
  parameters : List Parameter
  isVararg : Bool
  returnType : Option TypeExpr

structure ClassHead where
  name : String
  typeParameters : List String
  parameters : List Parameter

structure EnumDecl where
  name : String
  parameters : List Parameter
  values : List EnumValue

structure VariableDecl where
  isMutable : Bool
  name : String
  type : Option TypeExpr
  value : Option Expr

structure ConstDecl where
  name : String
  type : Option TypeExpr
  value : Expr

mutual

inductive Stmt where
  | mk (shape : StmtShape) (span : Span)

inductive StmtShape where
  | expression (expression : Expr)
  | assign (operator : AssignOp) (target value : Expr)
  | variableDecl (decl : VariableDecl)
  | constDecl (decl : ConstDecl)
  | functionDecl (head : FunctionHead) (body : List Stmt)
  | classDecl (head : ClassHead) (body : List Stmt)
  | enumDecl (decl : EnumDecl)
  | ifChain (clauses : List IfClause)
  | whileLoop (condition : Expr) (body : List Stmt)
  | repeatLoop (body : List Stmt) (condition : Expr)
  | forLoop (name : String) (iterable : Expr) (body : List Stmt)
  | whenCases (subject : Expr) (clauses : List WhenClause)
  | print (arguments : List Expr)
  | free (expression : Expr)
  | missing

inductive IfClause where
  | mk (condition : Option Expr) (body : List Stmt) (span : Span)

inductive WhenClause where
  | mk (values : List Expr) (body : List Stmt) (span : Span)

end

def Stmt.shape : Stmt → StmtShape
  | .mk shape _ => shape

def Stmt.span : Stmt → Span
  | .mk _ span => span

structure FileTree where
  name : String
  file : FileId
  statements : List Stmt

end FplCompiler.Syntax
