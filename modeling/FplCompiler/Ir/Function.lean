import FplCompiler.Declaration.Symbol
import FplCompiler.Ir.Instr

/-! The code of one function with its registers and labels, how code is added to it, and its index: where registers
are written and labels stand, and how often they are used. -/

namespace FplCompiler.Ir

inductive RegKind where
  | machine
  | temp
  | variable_
  deriving DecidableEq, Repr, Inhabited

structure RegInfo where
  name : String
  kind : RegKind
  deriving DecidableEq, Repr, Inhabited

/-- Where registers are written and labels stand, and how often they are used. What is not listed is not used. -/
structure Index where
  uses : Array Nat := #[]
  defs : Array (List Nat) := #[]
  labelAt : Array (Option Nat) := #[]
  labelUses : Array Nat := #[]
  deriving DecidableEq, Repr, Inhabited

namespace Index

def useCount (index : Index) (register : Reg) : Nat :=
  index.uses.getD register 0

def definitions (index : Index) (register : Reg) : List Nat :=
  index.defs.getD register []

def position? (index : Index) (label : Label) : Option Nat :=
  index.labelAt.getD label none

def jumpCount (index : Index) (label : Label) : Nat :=
  index.labelUses.getD label 0

def blank (registers labels : Nat) : Index where
  uses := Array.replicate registers 0
  defs := Array.replicate registers []
  labelAt := Array.replicate labels none
  labelUses := Array.replicate labels 0

end Index

structure Function where
  name : String
  code : Array Instr
  registers : Array RegInfo
  labelCount : Nat
  variableRegs : List (SymbolId × Reg)
  returnsValue : Bool
  reserved : UInt32
  comments : List String
  maxRegister : Nat
  tempCount : Nat
  scratchCount : Nat
  index : Index
  deriving Repr, Inhabited

namespace Function

def returnLabel : Label := 0

def empty (name : String) (returnsValue : Bool) : Function where
  name := name
  code := #[]
  registers := ((List.range Reg.machineCount).map fun register =>
    (⟨Reg.machineName register, .machine⟩ : RegInfo)).toArray
  labelCount := 1
  variableRegs := []
  returnsValue := returnsValue
  reserved := 0
  comments := []
  maxRegister := 0
  tempCount := 0
  scratchCount := 0
  index := {}

def info (function : Function) (register : Reg) : RegInfo :=
  function.registers.getD register default

def registerName (function : Function) (register : Reg) : String :=
  (function.info register).name

def isMachine (function : Function) (register : Reg) : Bool :=
  (function.info register).kind = .machine

def names (function : Function) : OperandNames where
  register := function.registerName
  label := fun label => s!"L{label}"
  operation := AluOp.name
  field := FieldRef.name

def instrText (function : Function) (instr : Instr) : String :=
  instr.text function.names

def dump (function : Function) : String :=
  let lines := function.code.toList.map fun instr => function.instrText instr ++ "\n"
  "Function " ++ function.name ++ "\n" ++ String.join lines ++ "\n"

def stackSize (function : Function) : Nat :=
  function.reserved.toNat

/-- Reserves bytes of the stack, filled up to whole words, and gives their offset. -/
def reserveStack (function : Function) (bytes : Nat) : Int32 × Function :=
  (function.reserved.toInt32,
    { function with reserved := function.reserved + ((UInt32.ofNat bytes + 3) &&& ~~~3) })

end Function

abbrev Emit := StateM Function

namespace Emit

def newRegister (info : RegInfo) : Emit Reg :=
  modifyGet fun function =>
    (function.registers.size, { function with registers := function.registers.push info })

def newTemp : Emit Reg := do
  let count := (← get).tempCount
  modify fun function => { function with tempCount := count + 1 }
  newRegister ⟨s!"T{count}", .temp⟩

def newScratch : Emit Reg := do
  let count := (← get).scratchCount
  modify fun function => { function with scratchCount := count + 1 }
  newRegister ⟨s!"V{count}", .variable_⟩

def variableRegister (symbol : SymbolId) (name : String) : Emit Reg := do
  match (← get).variableRegs.lookup symbol with
  | some register => return register
  | none =>
    let register ← newRegister ⟨name, .variable_⟩
    modify fun function => { function with variableRegs := (symbol, register) :: function.variableRegs }
    return register

def newLabel : Emit Label :=
  modifyGet fun function => (function.labelCount, { function with labelCount := function.labelCount + 1 })

def reserveStack (bytes : Nat) : Emit Int32 :=
  modifyGet (·.reserveStack bytes)

def add (instr : Instr) : Emit Unit :=
  modify fun function => { function with code := function.code.push instr }

def toTemp (instr : Reg → Instr) : Emit Reg := do
  let dest ← newTemp
  add (instr dest)
  return dest

def alu (op : AluOp) (left right : Reg) : Emit Reg :=
  toTemp fun dest => .alu op dest left right

def aluImm (op : AluOp) (left : Reg) (right : Int32) : Emit Reg :=
  toTemp fun dest => .aluImm op dest left right

def constant (value : Int32) : Emit Reg :=
  toTemp fun dest => .constant dest value

def copy (source : Reg) : Emit Reg :=
  toTemp fun dest => .move dest source

def address (data : StaticData) : Emit Reg :=
  toTemp fun dest => .address dest data

def load (size : MemSize) (address : Reg) (offset : Int32) : Emit Reg :=
  toTemp fun dest => .load size dest address offset

def loadField (size : MemSize) (address : Reg) (field : FieldRef) : Emit Reg :=
  toTemp fun dest => .loadField size dest address field

def call (target : String) (arguments : Nat) (returns : Bool) : Emit (Option Reg) := do
  add (.call target arguments returns)
  if returns then return some (← copy Reg.result) else return none

end Emit

end FplCompiler.Ir
