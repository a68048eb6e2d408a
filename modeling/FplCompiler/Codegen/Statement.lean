import FplCompiler.Codegen.Loop

/-! The code of statements. -/

namespace FplCompiler.Codegen

open Ir

open Typed (Expr Stmt IfClause WhenClause AssignOp)

def assign (op : AssignOp) (target value : ExprCode) : Gen Unit := do
  match op with
  | .replace =>
    let value ← value.value
    (← target.place).write value
  | .add | .subtract =>
    let place ← target.place
    let current ← place.read
    let value ← value.value
    place.write (← Emit.alu op.alu current value)

def printRoutine? : Ty → Option Routine
  | .int | .enumeration _ => some .printInt
  | .char => some .printChar
  | .string => some .printString
  | .bool => some .printBool
  | _ => none

def runRoutine (routine : Routine) (argument : ExprCode) : Gen Unit := do
  let value ← argument.value
  let _ ← Gen.callRoutine routine [value] false

def print (table : Declarations) (argument : Expr) : Gen Unit :=
  match printRoutine? argument.type with
  | some routine => runRoutine routine (exprCode table argument)
  | none => return ()

def ifClause (condition : Option ExprCode) (body : Gen Unit) (done : Label) : Gen Unit := do
  match condition with
  | some condition =>
    let next ← Emit.newLabel
    condition.branch next false
    body
    Emit.add (.jump done)
    Emit.add (.label next)
  | none => body

def branchOnCase (isString : Bool) (subject value : Reg) (target : Label) : Gen Unit := do
  if isString then
    let order ← Gen.compareStrings subject value
    Emit.add (.branch .eqI order Reg.zero target)
  else
    Emit.add (.branch .eqI subject value target)

def whenClause (isString : Bool) (subject : Reg) (candidates : List ExprCode) (body : Gen Unit) (done : Label) :
    Gen Unit := do
  if candidates.isEmpty then
    body
    Emit.add (.jump done)
  else
    let chosen ← Emit.newLabel
    let next ← Emit.newLabel
    candidates.forM fun candidate => do
      let value ← candidate.value
      branchOnCase isString subject value chosen
    Emit.add (.jump next)
    Emit.add (.label chosen)
    body
    Emit.add (.jump done)
    Emit.add (.label next)

def functionCode (table : Declarations) (id : FunctionId) (body : Gen Unit) : Gen Unit := do
  let function := table.function id
  Gen.note ("lowering " ++ function.label)
  Gen.inFunction (.empty function.label function.returnType.isReturned) do
    (function.thisSymbol.toList ++ function.parameters).zipIdx.forM fun (parameter, index) => do
      let register ← Gen.variableRegister table parameter
      Emit.add (.move register (Reg.argument index))
    body

mutual

def stmtCode (table : Declarations) : Stmt → Gen Unit
  | .expression expr => do
    let _ ← (exprCode table expr).value
  | .assign op target value => assign op (exprCode table target) (exprCode table value)
  | .declare symbol (some value) => do writeVariable table symbol (← (exprCode table value).value)
  | .free operand => runRoutine .free (exprCode table operand)
  | .print arguments => arguments.forM (print table)
  | .ifChain clauses => do
    let done ← Emit.newLabel
    ifClausesCode table done clauses
    Emit.add (.label done)
  | .whileLoop condition body => whileLoop (exprCode table condition) (blockCode table body)
  | .repeatLoop condition body => repeatLoop (exprCode table condition) (blockCode table body)
  | .forLoop symbol iterable body => forLoop table symbol iterable (blockCode table body)
  | .whenCases subject clauses => do
    let value ← (exprCode table subject).value
    let done ← Emit.newLabel
    whenClausesCode table (subject.type = .string) value done clauses
    Emit.add (.label done)
  | .functionBody function body => functionCode table function (blockCode table body)
  | .classBody classId constructor body methods => do
    Gen.describeClass (table.classDef classId)
    functionCode table constructor (blockCode table body)
    blockCode table methods
  | .declare _ none | .missing | .error _ => return ()

def blockCode (table : Declarations) : List Stmt → Gen Unit
  | [] => return ()
  | stmt :: rest => do
    stmtCode table stmt
    blockCode table rest

def ifClausesCode (table : Declarations) (done : Label) : List IfClause → Gen Unit
  | [] => return ()
  | .mk condition body :: rest => do
    ifClause (optionCode table condition) (blockCode table body) done
    ifClausesCode table done rest

def whenClausesCode (table : Declarations) (isString : Bool) (subject : Reg) (done : Label) :
    List WhenClause → Gen Unit
  | [] => return ()
  | .mk candidates body :: rest => do
    whenClause isString subject (exprCodes table candidates) (blockCode table body) done
    whenClausesCode table isString subject done rest

end

end FplCompiler.Codegen
