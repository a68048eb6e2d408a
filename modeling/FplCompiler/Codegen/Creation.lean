import FplCompiler.Codegen.Place
import FplCompiler.Typed.Tree

/-! The code that makes objects and arrays. A word in front of each holds its class or its number of elements. -/

namespace FplCompiler.Codegen

open Ir

def headerSize : Nat := 4

def stackBlock (bytes : Nat) : Gen Reg := do
  let offset ← Emit.reserveStack (bytes + headerSize)
  Emit.aluImm .addI Reg.stack (offset + Int32.ofNat headerSize)

def writeHeader (block value : Reg) : Gen Unit :=
  Emit.add (.store .word value block (-4))

def newObject (cls : ClassDef) (onStack : Bool) : Gen Reg := do
  Gen.describeClass cls
  let data : StaticData := .classDescriptor cls.ref.name
  if onStack then
    let object ← stackBlock cls.layout.used
    writeHeader object (← Emit.address data)
    return object
  else
    Gen.callRoutine .mallocObject [← Emit.address data] true

def createObject (table : Declarations) (classId : ClassId) (constructor : FunctionId) (arguments : List ExprCode)
    (onStack : Bool) : Gen Reg := do
  let arguments ← values arguments
  let object ← newObject (table.classDef classId) onStack
  let _ ← Gen.call (table.function constructor).label (object :: arguments) false
  return object

def slotSize (type : Ty) : Nat :=
  max (elementSize type) 1

def newArray (count : Reg) (known : Option Int32) (slot : Nat) (onStack : Bool) : Gen Reg := do
  let onHeap : Gen Reg := do Gen.callRoutine .mallocArray [count, ← Emit.constant (Int32.ofNat slot)] true
  match known with
  | some number =>
    if onStack && 0 ≤ number then
      let array ← stackBlock (number.toInt.toNat * slot)
      writeHeader array count
      return array
    else onHeap
  | none => onHeap

def fillArray (table : Declarations) (array count : Reg) (slot : Nat) (index : SymbolId) (body : ExprCode) :
    Gen Unit := do
  let counter ← Gen.variableRegister table index
  Emit.add (.constant counter 0)
  let again ← Emit.newLabel
  let test ← Emit.newLabel
  Emit.add (.jump test)
  Emit.add (.label again)
  let value ← body.value
  let offset ← Emit.aluImm .mulI counter (Int32.ofNat slot)
  let place ← Emit.alu .addI array offset
  Emit.add (.store (.forBytes slot) value place 0)
  Emit.add (.move counter (← Emit.aluImm .addI counter 1))
  Emit.add (.label test)
  Emit.add (.branch .ltI counter count again)

def literal? : Typed.Expr → Option Int32
  | .mk (.int value) _ _ => some value
  | _ => none

def createArray (table : Declarations) (type : Ty) (known : Option Int32) (size : ExprCode)
    (fill : Option (SymbolId × ExprCode)) (onStack : Bool) : Gen Reg := do
  let count ← size.value
  let array ← newArray count known (slotSize type) onStack
  match fill with
  | some (index, body) => fillArray table array count (slotSize type) index body
  | none => pure ()
  return array

def arrayLiteral (type : Ty) (elements : List ExprCode) (onStack : Bool) : Gen Reg := do
  let elements ← values elements
  let number := Int32.ofNat elements.length
  let count ← Emit.constant number
  let array ← newArray count (some number) (slotSize type) onStack
  elements.zipIdx.forM fun (value, index) =>
    Emit.add (.store (.forBytes (slotSize type)) value array (Int32.ofNat (index * slotSize type)))
  return array

end FplCompiler.Codegen
