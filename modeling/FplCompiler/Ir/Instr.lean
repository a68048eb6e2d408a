import FplCompiler.Alu
import FplCompiler.Collection.NatSet
import FplCompiler.Declaration.Constant

/-! Instructions of the intermediate code. Registers and labels are numbers; the registers below 32 are those of the
machine, and the others stand for values that are given a machine register later. -/

namespace FplCompiler.Ir

abbrev Reg := Nat
abbrev Label := Nat

namespace Reg

def machineCount : Nat := 32

def zero : Reg := 0

def result : Reg := 8

def globals : Reg := 29

def link : Reg := 30

def stack : Reg := 31

def argument (index : Nat) : Reg := index + 1

def isMachine (register : Reg) : Bool :=
  register < machineCount

def machineName (register : Reg) : String :=
  if register = zero then "0" else if register = stack then "SP" else s!"R{register}"

end Reg

inductive MemSize where
  | byte | half | word
  deriving DecidableEq, Repr, Inhabited

namespace MemSize

def forBytes : Nat → MemSize
  | 1 => byte
  | 2 => half
  | _ => word

def bytes : MemSize → Nat
  | byte => 1
  | half => 2
  | word => 4

def loadName : MemSize → String
  | byte => "ldb"
  | half => "ldh"
  | word => "ldw"

def storeName : MemSize → String
  | byte => "stb"
  | half => "sth"
  | word => "stw"

end MemSize

structure FieldRef where
  name : String
  offset : Int32
  deriving DecidableEq, Repr, Inhabited

inductive Instr where
  | nop
  | start
  | label (label : Label)
  | jump (label : Label)
  | branch (op : AluOp) (left right : Reg) (label : Label)
  | move (dest source : Reg)
  | constant (dest : Reg) (value : Int32)
  | alu (op : AluOp) (dest left right : Reg)
  | aluImm (op : AluOp) (dest left : Reg) (right : Int32)
  | load (size : MemSize) (dest address : Reg) (offset : Int32)
  | store (size : MemSize) (source address : Reg) (offset : Int32)
  | loadField (size : MemSize) (dest address : Reg) (field : FieldRef)
  | storeField (size : MemSize) (source address : Reg) (field : FieldRef)
  | address (dest : Reg) (data : StaticData)
  | call (target : String) (arguments : Nat) (returns : Bool)
  | callRegister (target : Reg) (arguments : Nat) (returns : Bool)
  | ret (returns : Bool)
  deriving DecidableEq, Repr, Inhabited

namespace Instr

def def? : Instr → Option Reg
  | move dest _ | constant dest _ | alu _ dest _ _ | aluImm _ dest _ _ | load _ dest _ _
  | loadField _ dest _ _ | address dest _ => some dest
  | call _ _ true | callRegister _ _ true => some Reg.result
  | _ => none

def argumentRegisters (count : Nat) : List Reg :=
  (List.range count).map Reg.argument

def uses : Instr → List Reg
  | alu _ _ left right | branch _ left right _ => [left, right]
  | aluImm _ _ left _ => [left]
  | move _ source => [source]
  | load _ _ base _ | loadField _ _ base _ => [base]
  | store _ source base _ | storeField _ source base _ => [source, base]
  | call _ arguments _ => argumentRegisters arguments
  | callRegister target arguments _ => argumentRegisters arguments ++ [target]
  | ret true => [Reg.result]
  | _ => []

def isCall : Instr → Bool
  | call _ _ _ | callRegister _ _ _ => true
  | _ => false

def target? : Instr → Option Label
  | jump target | branch _ _ _ target => some target
  | _ => none

def mapRegisters (rename : Reg → Reg) : Instr → Instr
  | branch op left right target => branch op (rename left) (rename right) target
  | move dest source => move (rename dest) (rename source)
  | constant dest value => constant (rename dest) value
  | alu op dest left right => alu op (rename dest) (rename left) (rename right)
  | aluImm op dest left right => aluImm op (rename dest) (rename left) right
  | load size dest base offset => load size (rename dest) (rename base) offset
  | store size source base offset => store size (rename source) (rename base) offset
  | loadField size dest base field => loadField size (rename dest) (rename base) field
  | storeField size source base field => storeField size (rename source) (rename base) field
  | address dest data => address (rename dest) data
  | callRegister target arguments returns => callRegister (rename target) arguments returns
  | other => other

end Instr

def branchName : AluOp → String
  | .eqI => "beq"
  | .neqI => "bne"
  | .ltI => "blt"
  | .lteI => "ble"
  | .gtI => "bgt"
  | .gteI => "bge"
  | _ => "b?"

structure OperandNames where
  register : Reg → String
  label : Label → String
  operation : AluOp → String
  field : FieldRef → String

def Instr.text (names : OperandNames) : Instr → String
  | nop => "nop"
  | start => "start"
  | label place => names.label place ++ ":"
  | jump target => "jmp " ++ names.label target
  | branch op left right target =>
    branchName op ++ " " ++ names.register left ++ ", " ++ names.register right ++ ", " ++ names.label target
  | move dest source => "ld " ++ names.register dest ++ ", " ++ names.register source
  | constant dest value => "ld " ++ names.register dest ++ ", " ++ toString value
  | alu op dest left right =>
    names.operation op ++ " " ++ names.register dest ++ ", " ++ names.register left ++ ", " ++
      names.register right
  | aluImm op dest left right =>
    names.operation op ++ " " ++ names.register dest ++ ", " ++ names.register left ++ ", " ++ toString right
  | load size dest base offset =>
    size.loadName ++ " " ++ names.register dest ++ ", " ++ names.register base ++ "[" ++ toString offset ++ "]"
  | store size source base offset =>
    size.storeName ++ " " ++ names.register source ++ ", " ++ names.register base ++ "[" ++ toString offset ++ "]"
  | loadField size dest base field =>
    size.loadName ++ " " ++ names.register dest ++ ", " ++ names.register base ++ "[" ++ names.field field ++ "]"
  | storeField size source base field =>
    size.storeName ++ " " ++ names.register source ++ ", " ++ names.register base ++ "[" ++ names.field field ++ "]"
  | address dest data => "ld " ++ names.register dest ++ ", " ++ data.label
  | call target _ _ => "jsr " ++ target
  | callRegister target _ _ => "jsr " ++ names.register target
  | ret _ => "ret"

end FplCompiler.Ir
