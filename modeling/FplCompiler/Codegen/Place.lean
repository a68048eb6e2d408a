import FplCompiler.Codegen.State

/-! Places that values are read from and written to, and the code of an expression in its three uses: as a value, as a
condition and as a place. -/

namespace FplCompiler.Codegen

open Ir

inductive Place where
  | register (register : Reg)
  | memory (size : MemSize) (base : Reg) (offset : Int32)
  | field (size : MemSize) (base : Reg) (field : FieldRef)
  deriving DecidableEq, Repr

def Place.read : Place → Gen Reg
  | .register home => return home
  | .memory size base offset => Emit.load size base offset
  | .field size base ref => Emit.loadField size base ref

def Place.write (value : Reg) : Place → Gen Unit
  | .register home => Emit.add (.move home value)
  | .memory size base offset => Emit.add (.store size value base offset)
  | .field size base ref => Emit.add (.storeField size value base ref)

def memSize (type : Ty) : MemSize :=
  MemSize.forBytes type.size

def globalPlace (size : MemSize) (offset : Nat) : Place :=
  .memory size Reg.globals (Int32.ofNat offset)

def branchOn (op : AluOp) (left right : Reg) (target : Label) (expected : Bool) : Gen Unit :=
  Emit.add (.branch (if expected then op else op.inverse?.getD op) left right target)

structure ExprCode where
  value : Gen Reg
  branch : Label → Bool → Gen Unit
  place : Gen Place

namespace ExprCode

def ofValue (value : Gen Reg) : ExprCode where
  value := value
  branch := fun target expected => do branchOn .neqI (← value) Reg.zero target expected
  place := return .register (← value)

def ofPlace (place : Gen Place) : ExprCode :=
  { ofValue (do (← place).read) with place := place }

def ofCondition (value : Gen Reg) (branch : Label → Bool → Gen Unit) : ExprCode :=
  { ofValue value with branch := branch }

def ofBranch (branch : Label → Bool → Gen Unit) : ExprCode :=
  let value : Gen Reg := do
    let result ← Emit.newScratch
    let skip ← Emit.newLabel
    Emit.add (.constant result 0)
    branch skip false
    Emit.add (.constant result 1)
    Emit.add (.label skip)
    return result
  ofCondition value branch

end ExprCode

def values (codes : List ExprCode) : Gen (List Reg) :=
  codes.mapM ExprCode.value

def elementSize (sequence : Ty) : Nat :=
  (sequence.element?.map Ty.size).getD 4

def elementCount (type : Ty) (sequence : Reg) : Gen Reg :=
  match type with
  | .inlineArray _ count => Emit.constant (Int32.ofNat count)
  | _ => Emit.load .word sequence sizeFieldOffset

def elementAddress (elementSize : Nat) (sequence index count : Reg) : Gen Reg := do
  let offset ← Emit.alu (.indexFor elementSize) index count
  Emit.alu .addI sequence offset

def indexPlace (type sequenceType : Ty) (sequence index : ExprCode) : Gen Place := do
  let sequence ← sequence.value
  let index ← index.value
  let count ← elementCount sequenceType sequence
  return .memory (memSize type) (← elementAddress (elementSize sequenceType) sequence index count) 0

/-- The place of a member. A member that lies inside its object is the address of its first byte. -/
def memberPlace (table : Declarations) (type : Ty) (object : ExprCode) (member : SymbolId) : Gen Place := do
  let symbol := table.symbol member
  let base ← object.value
  match symbol.kind with
  | .field none offset => return .memory (memSize type) base offset
  | .field _ offset => return .field (memSize type) base ⟨symbol.name, offset⟩
  | .inlineField _ offset => return .register (← Emit.aluImm .addI base offset)
  | _ => return .register Reg.zero

def globalVarPlace (table : Declarations) (type : Ty) (symbol : SymbolId) : Gen Place := do
  match (table.symbol symbol).kind with
  | .globalVar offset => return globalPlace (memSize type) offset
  | _ => return .register (← Gen.variableRegister table symbol)

def writeVariable (table : Declarations) (symbol : SymbolId) (value : Reg) : Gen Unit := do
  (← globalVarPlace table (table.symbol symbol).type symbol).write value

end FplCompiler.Codegen
