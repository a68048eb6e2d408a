import FplCompiler.Syntax.Tree

/-! Trees of small programs. Functions and classes stand in lines of their own; where anything else stands does not
matter. -/

namespace FplCompiler.Syntax

def Expr.at_ (shape : ExprShape) : Expr :=
  .mk shape .nowhere

def Stmt.at_ (shape : StmtShape) : Stmt :=
  .mk shape .nowhere

def Expr.named (name : String) : Expr :=
  .at_ (.name name)

def Expr.number (value : Int32) : Expr :=
  .at_ (.literal (.int value))

def Expr.callOf (name : String) (arguments : List Expr) : Expr :=
  .at_ (.call (.named name) arguments)

def TypeExpr.simple (name : String) : TypeExpr :=
  .mk (.named name []) .nowhere

def line (number : Nat) : Span :=
  ⟨number, number, default⟩

def parameters (typed : List (String × TypeExpr)) : List Parameter :=
  typed.map fun (name, type) => ⟨.plain, name, type, .nowhere⟩

def Stmt.function (number : Nat) (name : String) (typed : List (String × TypeExpr)) (returnType : Option TypeExpr)
    (body : List Stmt) : Stmt :=
  .mk (.functionDecl ⟨name, parameters typed, false, returnType⟩ body) (line number)

def Stmt.class_ (number : Nat) (name : String) (typed : List (String × TypeExpr)) (body : List Stmt) : Stmt :=
  .mk (.classDecl ⟨name, [], parameters typed⟩ body) (line number)

def Stmt.var (name : String) (type : Option TypeExpr) (value : Option Expr) : Stmt :=
  .at_ (.variableDecl ⟨true, name, type, value⟩)

def oneFile (stmts : List Stmt) : List FileTree :=
  [⟨"sample", default, stmts⟩]

end FplCompiler.Syntax
