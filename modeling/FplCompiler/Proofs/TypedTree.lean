import FplCompiler.Typed.Tree

/-! What typed trees are made of: the expressions inside an expression, and the statements inside a statement. -/

namespace FplCompiler.Typed

mutual

def Expr.within : Expr → List Expr
  | .mk shape span type => .mk shape span type :: shape.within

def ExprShape.within : ExprShape → List Expr
  | .int _ | .real _ | .string _ | .localVar _ | .globalVar _ | .functionName _ _ | .breakExpr | .continueExpr
  | .error _ => []
  | .returnExpr value => optionWithin value
  | .not operand | .minus operand | .member operand _ | .enumData operand _ _ | .cast operand | .isTest operand _
  | .makeUnion operand | .unwrap operand => operand.within
  | .binary _ left right | .and left right | .or left right | .index left right | .range left right _ =>
    left.within ++ right.within
  | .conditional condition thenBranch elseBranch => condition.within ++ (thenBranch.within ++ elseBranch.within)
  | .call callee arguments | .callValue callee arguments | .methodCall callee _ arguments =>
    callee.within ++ exprsWithin arguments
  | .createObject _ _ arguments _ | .arrayLiteral arguments _ => exprsWithin arguments
  | .createArray size fill _ => size.within ++ fill.within

def Fill.within : Fill → List Expr
  | .none => []
  | .each _ body => body.within

def exprsWithin : List Expr → List Expr
  | [] => []
  | expr :: rest => expr.within ++ exprsWithin rest

def optionWithin : Option Expr → List Expr
  | none => []
  | some expr => expr.within

end

theorem Expr.mem_within_self (expr : Expr) : expr ∈ expr.within := by
  cases expr
  simp [Expr.within]

theorem exprsWithin_append (first second : List Expr) :
    exprsWithin (first ++ second) = exprsWithin first ++ exprsWithin second := by
  induction first with
  | nil => rfl
  | cons expr rest ih => simp [exprsWithin, ih]

theorem mem_exprsWithin {exprs : List Expr} {expr node : Expr} (member : expr ∈ exprs) (inside : node ∈ expr.within) :
    node ∈ exprsWithin exprs := by
  induction exprs with
  | nil => cases member
  | cons first rest ih =>
    rcases List.mem_cons.mp member with rfl | later
    · exact List.mem_append_left _ inside
    · exact List.mem_append_right _ (ih later)

def ExprShape.passed : ExprShape → Nat
  | .call _ arguments | .callValue _ arguments => arguments.length
  | .methodCall _ _ arguments | .createObject _ _ arguments _ => arguments.length + 1
  | _ => 0

mutual

def Stmt.within : Stmt → List Stmt
  | .ifChain clauses => .ifChain clauses :: clausesWithin clauses
  | .whileLoop condition body => .whileLoop condition body :: stmtsWithin body
  | .repeatLoop condition body => .repeatLoop condition body :: stmtsWithin body
  | .forLoop symbol iterable body => .forLoop symbol iterable body :: stmtsWithin body
  | .whenCases subject clauses => .whenCases subject clauses :: casesWithin clauses
  | .functionBody function body => .functionBody function body :: stmtsWithin body
  | .classBody classId constructor body methods =>
    .classBody classId constructor body methods :: (stmtsWithin body ++ stmtsWithin methods)
  | stmt => [stmt]

def stmtsWithin : List Stmt → List Stmt
  | [] => []
  | stmt :: rest => stmt.within ++ stmtsWithin rest

def clausesWithin : List IfClause → List Stmt
  | [] => []
  | .mk _ body :: rest => stmtsWithin body ++ clausesWithin rest

def casesWithin : List WhenClause → List Stmt
  | [] => []
  | .mk _ body :: rest => stmtsWithin body ++ casesWithin rest

end

theorem Stmt.mem_within_self (stmt : Stmt) : stmt ∈ stmt.within := by
  cases stmt <;> simp [Stmt.within]

def IfClause.condition : IfClause → Option Expr
  | .mk condition _ => condition

def WhenClause.values : WhenClause → List Expr
  | .mk values _ => values

def Stmt.parts : Stmt → List Expr
  | .expression expr | .free expr => [expr]
  | .assign _ target value => [target, value]
  | .declare _ value => value.toList
  | .print arguments => arguments
  | .ifChain clauses => clauses.filterMap IfClause.condition
  | .whileLoop condition _ | .repeatLoop condition _ => [condition]
  | .forLoop _ iterable _ => [iterable]
  | .whenCases subject clauses => subject :: clauses.flatMap WhenClause.values
  | .functionBody _ _ | .classBody _ _ _ _ | .missing | .error _ => []

def Stmt.target? : Stmt → Option Expr
  | .assign _ target _ => some target
  | _ => none

mutual

def Stmt.lowered : Stmt → List FunctionId
  | .ifChain clauses => loweredByClauses clauses
  | .whileLoop _ body | .repeatLoop _ body | .forLoop _ _ body => loweredBy body
  | .whenCases _ clauses => loweredByCases clauses
  | .functionBody function body => loweredBy body ++ [function]
  | .classBody _ constructor body methods => (loweredBy body ++ [constructor]) ++ loweredBy methods
  | _ => []

def loweredBy : List Stmt → List FunctionId
  | [] => []
  | stmt :: rest => stmt.lowered ++ loweredBy rest

def loweredByClauses : List IfClause → List FunctionId
  | [] => []
  | .mk _ body :: rest => loweredBy body ++ loweredByClauses rest

def loweredByCases : List WhenClause → List FunctionId
  | [] => []
  | .mk _ body :: rest => loweredBy body ++ loweredByCases rest

end

theorem loweredBy_append (first second : List Stmt) :
    loweredBy (first ++ second) = loweredBy first ++ loweredBy second := by
  induction first with
  | nil => rfl
  | cons stmt rest ih => rw [List.cons_append, loweredBy, loweredBy, ih, List.append_assoc]

theorem stmtsWithin_append (first second : List Stmt) :
    stmtsWithin (first ++ second) = stmtsWithin first ++ stmtsWithin second := by
  induction first with
  | nil => rfl
  | cons stmt rest ih => rw [List.cons_append, stmtsWithin, stmtsWithin, ih, List.append_assoc]

namespace Program

def statements (program : Program) : List Stmt :=
  program.flatMap fun file => stmtsWithin file.statements

def exprs (program : Program) : List Expr :=
  program.statements.flatMap fun stmt => exprsWithin stmt.parts

def targets (program : Program) : List Expr :=
  program.statements.filterMap Stmt.target?

end Program

end FplCompiler.Typed
