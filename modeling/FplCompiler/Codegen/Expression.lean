import FplCompiler.Codegen.Condition
import FplCompiler.Codegen.Creation

/-! The code of expressions. -/

namespace FplCompiler.Codegen

open Ir

open Typed (Expr ExprShape Fill)

def returnValue (value : Option ExprCode) : Gen Reg := do
  match value with
  | some value => Emit.add (.move Reg.result (← value.value))
  | none => pure ()
  Emit.add (.jump Function.returnLabel)
  return Reg.zero

def breakValue : Gen Reg := do
  match (← get).loop with
  | some labels => Emit.add (.jump labels.breakLabel)
  | none => pure ()
  return Reg.zero

def continueValue : Gen Reg := do
  match ← Gen.continueLabel? with
  | some target => Emit.add (.jump target)
  | none => pure ()
  return Reg.zero

def callFunction (function : FunctionDef) (arguments : List ExprCode) : Gen Reg := do
  let arguments ← values arguments
  Gen.call function.label arguments function.returnType.isReturned

def callValue (type : Ty) (callee : ExprCode) (arguments : List ExprCode) : Gen Reg := do
  let target ← callee.value
  let arguments ← values arguments
  Gen.callRegister target arguments type.isReturned

mutual

def exprCode (table : Declarations) : Expr → ExprCode
  | .mk shape _ type => shapeCode table type shape

def shapeCode (table : Declarations) (type : Ty) : ExprShape → ExprCode
  | .int value => intCode value
  | .real value => .ofValue (Emit.constant value.toSingle.word)
  | .string value => .ofValue do Emit.address (.string (← Gen.intern value))
  | .localVar symbol => .ofPlace do return .register (← Gen.variableRegister table symbol)
  | .globalVar symbol => .ofPlace (globalVarPlace table type symbol)
  | .functionName _ function => .ofValue (Emit.address (.function (table.function function).label))
  | .binary op left right => binaryCode op (exprCode table left) (exprCode table right)
  | .and left right => .ofBranch (branchAnd (exprCode table left) (exprCode table right))
  | .or left right => .ofBranch (branchOr (exprCode table left) (exprCode table right))
  | .not operand => notCode (exprCode table operand)
  | .minus operand => .ofValue (minusValue type (exprCode table operand))
  | .index array index =>
    .ofPlace (indexPlace type array.type (exprCode table array) (exprCode table index))
  | .member object field => .ofPlace (memberPlace table type (exprCode table object) field)
  | .enumData value enum column => .ofValue (enumDataValue (table.enumDef enum) column (exprCode table value))
  | .returnExpr value => .ofValue (returnValue (optionCode table value))
  | .breakExpr => .ofValue breakValue
  | .continueExpr => .ofValue continueValue
  | .conditional condition thenBranch elseBranch =>
    .ofValue (conditionalValue (exprCode table condition) (exprCode table thenBranch) (exprCode table elseBranch))
  | .call callee arguments =>
    match callee with
    | .mk (.functionName _ function) _ _ =>
      .ofValue (callFunction (table.function function) (exprCodes table arguments))
    | other => .ofValue (callValue type (exprCode table other) (exprCodes table arguments))
  | .methodCall receiver function arguments =>
    .ofValue (callFunction (table.function function) (exprCode table receiver :: exprCodes table arguments))
  | .callValue callee arguments =>
    .ofValue (callValue type (exprCode table callee) (exprCodes table arguments))
  | .createObject classId constructor arguments onStack =>
    .ofValue (createObject table classId constructor (exprCodes table arguments) onStack)
  | .createArray size fill onStack =>
    .ofValue (createArray table type (literal? size) (exprCode table size) (fillCode table fill) onStack)
  | .arrayLiteral elements onStack => .ofValue (arrayLiteral type (exprCodes table elements) onStack)
  | .isTest operand target => .ofBranch (branchIs table operand.type target (exprCode table operand))
  | .cast operand | .makeUnion operand | .unwrap operand => .ofValue (exprCode table operand).value
  | .range _ _ _ | .error _ => .ofValue (return Reg.zero)

def exprCodes (table : Declarations) : List Expr → List ExprCode
  | [] => []
  | expr :: rest => exprCode table expr :: exprCodes table rest

def optionCode (table : Declarations) : Option Expr → Option ExprCode
  | none => none
  | some expr => some (exprCode table expr)

def fillCode (table : Declarations) : Fill → Option (SymbolId × ExprCode)
  | .none => none
  | .each index body => some (index, exprCode table body)

end

end FplCompiler.Codegen
