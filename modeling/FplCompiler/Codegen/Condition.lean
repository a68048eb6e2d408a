import FplCompiler.Codegen.Place

/-! The code of operators and conditions. The right side of an "and" or "or" runs only if the left side does not
decide. -/

namespace FplCompiler.Codegen

open Ir

def stringOrder (left right : ExprCode) : Gen Reg := do
  let left ← left.value
  let right ← right.value
  Gen.compareStrings left right

def binaryValue (op : AluOp) (left right : ExprCode) : Gen Reg := do
  let left ← left.value
  let right ← right.value
  Emit.alu op left right

def binaryCode (op : AluOp) (left right : ExprCode) : ExprCode :=
  match op.ofStringComparison?, op.inverse? with
  | some compare, _ =>
    .ofCondition (do Emit.alu compare (← stringOrder left right) Reg.zero) fun target expected => do
      branchOn compare (← stringOrder left right) Reg.zero target expected
  | none, some _ =>
    .ofCondition (binaryValue op left right) fun target expected => do
      let left ← left.value
      let right ← right.value
      branchOn op left right target expected
  | none, none => .ofValue (binaryValue op left right)

def branchAnd (left right : ExprCode) (target : Label) (expected : Bool) : Gen Unit := do
  if expected then
    let skip ← Emit.newLabel
    left.branch skip false
    right.branch target true
    Emit.add (.label skip)
  else
    left.branch target false
    right.branch target false

def branchOr (left right : ExprCode) (target : Label) (expected : Bool) : Gen Unit := do
  if expected then
    left.branch target true
    right.branch target true
  else
    let skip ← Emit.newLabel
    left.branch skip true
    right.branch target false
    Emit.add (.label skip)

def notCode (operand : ExprCode) : ExprCode :=
  .ofCondition (do Emit.aluImm .xorI (← operand.value) 1) fun target expected =>
    operand.branch target !expected

def minusValue (type : Ty) (operand : ExprCode) : Gen Reg := do
  Emit.alu (if type = .real then .subR else .subI) Reg.zero (← operand.value)

def intCode (value : Int32) : ExprCode :=
  .ofCondition (Emit.constant value) fun target expected =>
    if decide (value ≠ 0) = expected then Emit.add (.jump target) else return ()

def errorLimit : Int32 :=
  0x1000

def branchOnClass (cls : ClassDef) (object : Reg) (target : Label) (expected : Bool) : Gen Unit := do
  Gen.describeClass cls
  let descriptors : Gen (Reg × Reg) := do
    let actual ← Emit.load .word object (-4)
    let described ← Emit.address (.classDescriptor cls.ref.name)
    return (actual, described)
  if expected then
    let skip ← Emit.newLabel
    Emit.add (.branch .eqI object Reg.zero skip)
    let (actual, described) ← descriptors
    Emit.add (.branch .eqI actual described target)
    Emit.add (.label skip)
  else
    Emit.add (.branch .eqI object Reg.zero target)
    let (actual, described) ← descriptors
    Emit.add (.branch .neqI actual described target)

def branchIs (table : Declarations) (operandType tested : Ty) (operand : ExprCode) (target : Label)
    (expected : Bool) : Gen Unit := do
  let value ← operand.value
  match operandType, tested with
  | .errorUnion _, .enumeration _ => branchOn .ltI value (← Emit.constant errorLimit) target expected
  | .errorUnion _, _ => branchOn .gteI value (← Emit.constant errorLimit) target expected
  | .any, .object cls _ => branchOnClass (table.classDef cls.id) value target expected
  | _, _ => branchOn .neqI value Reg.zero target expected

def conditionalValue (condition thenBranch elseBranch : ExprCode) : Gen Reg := do
  let result ← Emit.newScratch
  let otherwise ← Emit.newLabel
  let done ← Emit.newLabel
  condition.branch otherwise false
  Emit.add (.move result (← thenBranch.value))
  Emit.add (.jump done)
  Emit.add (.label otherwise)
  Emit.add (.move result (← elseBranch.value))
  Emit.add (.label done)
  return result

def enumDataValue (enum : EnumDef) (column : Nat) (operand : ExprCode) : Gen Reg := do
  let data ← Gen.enumTable enum column
  let entries ← Emit.address data
  let offset ← Emit.aluImm .mulI (← operand.value) 4
  let entry ← Emit.alu .addI entries offset
  Emit.load .word entry 0

end FplCompiler.Codegen
