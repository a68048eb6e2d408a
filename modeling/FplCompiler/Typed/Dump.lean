import FplCompiler.Declaration.Table
import FplCompiler.Typed.Tree

/-! The text of typed trees: a line for each node, with its children indented below it. -/

namespace FplCompiler.Typed

def dumpLine (depth : Nat) (text : String) : String :=
  String.ofList (List.replicate (2 * depth) ' ') ++ text ++ "\n"

mutual

def Expr.dump (table : Declarations) (depth : Nat) : Expr → String
  | .mk shape _ type => shape.dump table depth (" (" ++ type.text ++ ")")

def ExprShape.dump (table : Declarations) (depth : Nat) (typeText : String) : ExprShape → String
  | .int value => dumpLine depth ("int: " ++ toString value ++ typeText)
  | .real value => dumpLine depth ("real: " ++ value.text ++ typeText)
  | .string value => dumpLine depth ("string: \"" ++ value ++ "\"" ++ typeText)
  | .localVar symbol => dumpLine depth ("var: " ++ (table.symbol symbol).name ++ typeText)
  | .globalVar symbol => dumpLine depth ("global: " ++ (table.symbol symbol).name ++ typeText)
  | .functionName symbol _ => dumpLine depth ("function: " ++ (table.symbol symbol).name ++ typeText)
  | .binary op left right =>
    dumpLine depth (op.name ++ typeText) ++ left.dump table (depth + 1) ++ right.dump table (depth + 1)
  | .and left right =>
    dumpLine depth ("and" ++ typeText) ++ left.dump table (depth + 1) ++ right.dump table (depth + 1)
  | .or left right =>
    dumpLine depth ("or" ++ typeText) ++ left.dump table (depth + 1) ++ right.dump table (depth + 1)
  | .not operand => dumpLine depth ("not" ++ typeText) ++ operand.dump table (depth + 1)
  | .minus operand => dumpLine depth ("minus" ++ typeText) ++ operand.dump table (depth + 1)
  | .index array index =>
    dumpLine depth ("index" ++ typeText) ++ array.dump table (depth + 1) ++ index.dump table (depth + 1)
  | .member object field =>
    dumpLine depth ("member: " ++ (table.symbol field).name ++ typeText) ++ object.dump table (depth + 1)
  | .enumData value enum column =>
    let name := (((table.enumDef enum).columns[column]?).getD default).name
    dumpLine depth ("enum-data: " ++ name ++ typeText) ++ value.dump table (depth + 1)
  | .returnExpr none => dumpLine depth ("return" ++ typeText)
  | .returnExpr (some value) => dumpLine depth ("return" ++ typeText) ++ value.dump table (depth + 1)
  | .breakExpr => dumpLine depth ("break" ++ typeText)
  | .continueExpr => dumpLine depth ("continue" ++ typeText)
  | .conditional condition thenBranch elseBranch =>
    dumpLine depth ("if-expr" ++ typeText) ++ condition.dump table (depth + 1) ++
      thenBranch.dump table (depth + 1) ++ elseBranch.dump table (depth + 1)
  | .range start stop op =>
    dumpLine depth ("range: " ++ op.name ++ typeText) ++ start.dump table (depth + 1) ++
      stop.dump table (depth + 1)
  | .call callee arguments =>
    dumpLine depth ("call" ++ typeText) ++ callee.dump table (depth + 1) ++
      dumpExprs table (depth + 1) arguments
  | .methodCall receiver function arguments =>
    dumpLine depth ("method-call: " ++ (table.function function).name ++ typeText) ++
      receiver.dump table (depth + 1) ++ dumpExprs table (depth + 1) arguments
  | .callValue callee arguments =>
    dumpLine depth ("call" ++ typeText) ++ callee.dump table (depth + 1) ++
      dumpExprs table (depth + 1) arguments
  | .createObject _ _ arguments onStack =>
    dumpLine depth ((if onStack then "local-object" else "new-object") ++ typeText) ++
      dumpExprs table (depth + 1) arguments
  | .createArray size fill onStack =>
    dumpLine depth ((if onStack then "local-array" else "new-array") ++ typeText) ++
      size.dump table (depth + 1) ++ fill.dump table (depth + 1)
  | .arrayLiteral elements onStack =>
    dumpLine depth ((if onStack then "local-array-literal" else "array-literal") ++ typeText) ++
      dumpExprs table (depth + 1) elements
  | .cast operand => dumpLine depth ("cast" ++ typeText) ++ operand.dump table (depth + 1)
  | .isTest operand target =>
    dumpLine depth ("is: " ++ target.text ++ typeText) ++ operand.dump table (depth + 1)
  | .makeUnion operand => dumpLine depth ("make-union" ++ typeText) ++ operand.dump table (depth + 1)
  | .unwrap operand => dumpLine depth ("unwrap" ++ typeText) ++ operand.dump table (depth + 1)
  | .error message => dumpLine depth ("error: " ++ message)

def Fill.dump (table : Declarations) (depth : Nat) : Fill → String
  | .none => ""
  | .each _ body => dumpLine depth "lambda: it" ++ body.dump table (depth + 1)

def dumpExprs (table : Declarations) (depth : Nat) : List Expr → String
  | [] => ""
  | expr :: rest => expr.dump table depth ++ dumpExprs table depth rest

end

def dumpOptional (table : Declarations) (depth : Nat) : Option Expr → String
  | none => ""
  | some expr => expr.dump table depth

mutual

def Stmt.dump (table : Declarations) (depth : Nat) : Stmt → String
  | .expression expression => dumpLine depth "expr-stmt" ++ expression.dump table (depth + 1)
  | .assign op target value =>
    dumpLine depth ("assign " ++ op.alu.name) ++ target.dump table (depth + 1) ++ value.dump table (depth + 1)
  | .declare symbol value =>
    dumpLine depth ("decl: " ++ (table.symbol symbol).details) ++ dumpOptional table (depth + 1) value
  | .free operand => dumpLine depth "free" ++ operand.dump table (depth + 1)
  | .print arguments => dumpLine depth "print" ++ dumpExprs table (depth + 1) arguments
  | .ifChain clauses => dumpLine depth "if" ++ dumpIfClauses table (depth + 1) clauses
  | .whileLoop condition body =>
    dumpLine depth "while" ++ condition.dump table (depth + 1) ++ dumpStmts table (depth + 1) body
  | .repeatLoop condition body =>
    dumpLine depth "repeat" ++ condition.dump table (depth + 1) ++ dumpStmts table (depth + 1) body
  | .forLoop symbol iterable body =>
    dumpLine depth ("for: " ++ (table.symbol symbol).name) ++ iterable.dump table (depth + 1) ++
      dumpStmts table (depth + 1) body
  | .whenCases subject clauses =>
    dumpLine depth "when" ++ subject.dump table (depth + 1) ++ dumpWhenClauses table (depth + 1) clauses
  | .functionBody function body =>
    let head := table.function function
    let signature := head.name ++ "(" ++ Ty.parameterText (table.parameterTypes head) head.isVararg ++ ")"
    dumpLine depth ("function: " ++ signature) ++ dumpStmts table (depth + 1) body
  | .classBody classId _ body methods =>
    dumpLine depth ("class: " ++ (table.classDef classId).ref.name) ++ dumpStmts table (depth + 1) body ++
      dumpStmts table (depth + 1) methods
  | .missing => dumpLine depth "null-stmt"
  | .error message => dumpLine depth ("error: " ++ message)

def dumpStmts (table : Declarations) (depth : Nat) : List Stmt → String
  | [] => ""
  | stmt :: rest => stmt.dump table depth ++ dumpStmts table depth rest

def dumpIfClauses (table : Declarations) (depth : Nat) : List IfClause → String
  | [] => ""
  | .mk condition body :: rest =>
    dumpLine depth "if-clause" ++ dumpOptional table (depth + 1) condition ++
      dumpStmts table (depth + 1) body ++ dumpIfClauses table depth rest

def dumpWhenClauses (table : Declarations) (depth : Nat) : List WhenClause → String
  | [] => ""
  | .mk values body :: rest =>
    dumpLine depth (if values.isEmpty then "when-else" else "when-clause") ++
      dumpExprs table (depth + 1) values ++ dumpStmts table (depth + 1) body ++
      dumpWhenClauses table depth rest

end

def dump (table : Declarations) (program : Program) : String :=
  dumpLine 0 "top" ++ String.join (program.map fun file =>
    dumpLine 1 ("file: " ++ file.name) ++ dumpStmts table 2 file.statements)

end FplCompiler.Typed
