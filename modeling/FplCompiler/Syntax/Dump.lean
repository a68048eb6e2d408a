import FplCompiler.Syntax.Tree

/-! The text of syntax trees: a line for each node, indented by its depth. -/

namespace FplCompiler.Syntax

def dumpLine (depth : Nat) (text : String) : String :=
  String.ofList (List.replicate depth ' ') ++ text ++ "\n"

def Literal.dump : Literal → String
  | int value => s!"Intlit {value}"
  | real value => "Reallit " ++ value.text
  | char value => "Charlit " ++ value.toString
  | string value => "Stringlit " ++ value

mutual

def Expr.dump (depth : Nat) : Expr → String
  | .mk (.literal value) _ => dumpLine depth value.dump
  | .mk (.name name) _ => dumpLine depth ("Id " ++ name)
  | .mk (.binary operator left right) _ =>
    dumpLine depth ("Binop " ++ operator.name) ++ left.dump (depth + 1) ++ right.dump (depth + 1)
  | .mk (.unary .minus operand) _ => dumpLine depth "Minus" ++ operand.dump (depth + 1)
  | .mk (.unary .not operand) _ => dumpLine depth "Not" ++ operand.dump (depth + 1)
  | .mk (.index object index) _ =>
    dumpLine depth "Index" ++ object.dump (depth + 1) ++ index.dump (depth + 1)
  | .mk (.member object name) _ =>
    dumpLine depth ("Member " ++ name) ++ object.dump (depth + 1)
  | .mk (.call callee arguments) _ =>
    dumpLine depth "Call" ++ callee.dump (depth + 1) ++ dumpExprs (depth + 1) arguments
  | .mk (.range start stop operator) _ =>
    dumpLine depth ("Range " ++ operator.name) ++ start.dump (depth + 1) ++ stop.dump (depth + 1)
  | .mk (.cast operand target) _ =>
    dumpLine depth "Cast" ++ operand.dump (depth + 1) ++ target.dump (depth + 1)
  | .mk (.isTest operand target) _ =>
    dumpLine depth "Is" ++ operand.dump (depth + 1) ++ target.dump (depth + 1)
  | .mk (.conditional condition thenBranch elseBranch) _ =>
    dumpLine depth "IfExpr" ++ condition.dump (depth + 1) ++ thenBranch.dump (depth + 1)
      ++ elseBranch.dump (depth + 1)
  | .mk (.create type arguments fill onStack) _ =>
    dumpLine depth (if onStack then "Local" else "New") ++ type.dump (depth + 1)
      ++ dumpExprs (depth + 1) arguments ++ fill.dump (depth + 1)
  | .mk (.createList type elements onStack) _ =>
    dumpLine depth (if onStack then "LocalInitialiser" else "NewInitialiser")
      ++ type.dump (depth + 1) ++ dumpExprs (depth + 1) elements
  | .mk (.returnExpr none) _ => dumpLine depth "Return"
  | .mk (.returnExpr (some value)) _ => dumpLine depth "Return" ++ value.dump (depth + 1)
  | .mk .breakExpr _ => dumpLine depth "Break"
  | .mk .continueExpr _ => dumpLine depth "Continue"

def Fill.dump (depth : Nat) : Fill → String
  | .none => ""
  | .each body _ => dumpLine depth "Lambda" ++ body.dump (depth + 1)

def TypeExpr.dump (depth : Nat) : TypeExpr → String
  | .mk (.named name arguments) _ =>
    dumpLine depth ("Type " ++ name) ++ dumpTypes (depth + 1) arguments
  | .mk (.array none) _ => dumpLine depth "TypeArray"
  | .mk (.array (some element)) _ => dumpLine depth "TypeArray" ++ element.dump (depth + 1)
  | .mk (.fixedArray element size) _ =>
    dumpLine depth "TypeFixedArray" ++ element.dump (depth + 1) ++ size.dump (depth + 1)
  | .mk (.range element) _ => dumpLine depth "TypeRange" ++ element.dump (depth + 1)
  | .mk (.nullable inner) _ => dumpLine depth "TypeNullable" ++ inner.dump (depth + 1)
  | .mk (.errorUnion inner) _ => dumpLine depth "TypeErrorUnion" ++ inner.dump (depth + 1)

def dumpExprs (depth : Nat) : List Expr → String
  | [] => ""
  | first :: rest => first.dump depth ++ dumpExprs depth rest

def dumpTypes (depth : Nat) : List TypeExpr → String
  | [] => ""
  | first :: rest => first.dump depth ++ dumpTypes depth rest

end

def Parameter.dump (depth : Nat) (parameter : Parameter) : String :=
  let keyword :=
    match parameter.kind with
    | .plain => ""
    | .val => "VAL "
    | .var => "VAR "
  dumpLine depth ("Parameter " ++ keyword ++ parameter.name) ++ parameter.type.dump (depth + 1)

def dumpParameters (depth : Nat) (parameters : List Parameter) : String :=
  String.join (parameters.map (Parameter.dump depth))

def dumpOptionalType (depth : Nat) : Option TypeExpr → String
  | none => ""
  | some type => type.dump depth

def dumpOptionalExpr (depth : Nat) : Option Expr → String
  | none => ""
  | some value => value.dump depth

def EnumValue.dump (depth : Nat) (value : EnumValue) : String :=
  dumpLine depth ("EnumValue " ++ value.name) ++ dumpExprs (depth + 1) value.arguments

def AssignOp.dump : AssignOp → String
  | assign => "Assign"
  | add => "Assign PLUSEQ"
  | subtract => "Assign MINUSEQ"

mutual

def Stmt.dump (depth : Nat) : Stmt → String
  | .mk (.expression expression) _ => dumpLine depth "ExprStmt" ++ expression.dump (depth + 1)
  | .mk (.assign operator target value) _ =>
    dumpLine depth operator.dump ++ target.dump (depth + 1) ++ value.dump (depth + 1)
  | .mk (.variableDecl decl) _ =>
    dumpLine depth ((if decl.isMutable then "Decl VAR " else "Decl VAL ") ++ decl.name)
      ++ dumpOptionalType (depth + 1) decl.type ++ dumpOptionalExpr (depth + 1) decl.value
  | .mk (.constDecl decl) _ =>
    dumpLine depth ("Const " ++ decl.name) ++ dumpOptionalType (depth + 1) decl.type
      ++ decl.value.dump (depth + 1)
  | .mk (.functionDecl head body) _ =>
    dumpLine depth ("Function " ++ head.name) ++ dumpParameters (depth + 1) head.parameters
      ++ dumpOptionalType (depth + 1) head.returnType ++ dumpStmts (depth + 1) body
  | .mk (.classDecl head body) _ =>
    dumpLine depth ("Class " ++ head.name) ++ dumpParameters (depth + 1) head.parameters
      ++ dumpStmts (depth + 1) body
  | .mk (.enumDecl decl) _ =>
    dumpLine depth ("Enum " ++ decl.name) ++ dumpParameters (depth + 1) decl.parameters
      ++ String.join (decl.values.map (EnumValue.dump (depth + 1)))
  | .mk (.ifChain clauses) _ => dumpLine depth "If" ++ dumpIfClauses (depth + 1) clauses
  | .mk (.whileLoop condition body) _ =>
    dumpLine depth "While" ++ condition.dump (depth + 1) ++ dumpStmts (depth + 1) body
  | .mk (.repeatLoop body condition) _ =>
    dumpLine depth "Repeat" ++ condition.dump (depth + 1) ++ dumpStmts (depth + 1) body
  | .mk (.forLoop variableName iterable body) _ =>
    dumpLine depth ("For " ++ variableName) ++ iterable.dump (depth + 1)
      ++ dumpStmts (depth + 1) body
  | .mk (.whenCases subject clauses) _ =>
    dumpLine depth "When" ++ subject.dump (depth + 1) ++ dumpWhenClauses (depth + 1) clauses
  | .mk (.print arguments) _ => dumpLine depth "Print" ++ dumpExprs (depth + 1) arguments
  | .mk (.free expression) _ => dumpLine depth "Free" ++ expression.dump (depth + 1)
  | .mk .missing _ => dumpLine depth "NullStmt"

def dumpStmts (depth : Nat) : List Stmt → String
  | [] => ""
  | first :: rest => first.dump depth ++ dumpStmts depth rest

def dumpIfClauses (depth : Nat) : List IfClause → String
  | [] => ""
  | .mk condition body _ :: rest =>
    dumpLine depth "IfClause" ++ dumpOptionalExpr (depth + 1) condition
      ++ dumpStmts (depth + 1) body ++ dumpIfClauses depth rest

def dumpWhenClauses (depth : Nat) : List WhenClause → String
  | [] => ""
  | .mk values body _ :: rest =>
    dumpLine depth (if values.isEmpty then "WhenClause else" else "WhenClause")
      ++ dumpExprs (depth + 1) values ++ dumpStmts (depth + 1) body ++ dumpWhenClauses depth rest

end

def FileTree.dump (tree : FileTree) : String :=
  dumpLine 0 ("File " ++ tree.name) ++ dumpStmts 1 tree.statements

end FplCompiler.Syntax
