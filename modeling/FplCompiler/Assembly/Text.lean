import FplCompiler.Assembly.Data

/-! Assembly text. Each function is a block of lines; the stack frame is made at its entry and removed at its
returns. -/

namespace FplCompiler.Assembly

open Ir

/-- One line of the block of a function: an instruction of its code, or a step that makes or removes its stack frame. -/
inductive BlockOp where
  | code (instr : Instr)
  | reserve (bytes : UInt32)
  | release (bytes : UInt32)
  | save (register : Reg) (offset : UInt32)
  | restore (register : Reg) (offset : UInt32)
  deriving DecidableEq, Repr

def BlockOp.text (names : OperandNames) : BlockOp → String
  | code instr => instr.text names
  | reserve bytes => s!"sub SP, SP, {bytes}"
  | release bytes => s!"add SP, SP, {bytes}"
  | save register offset => s!"stw R{register}, SP[{offset}]"
  | restore register offset => s!"ldw R{register}, SP[{offset}]"

/-- The stack frame of a function: the local objects, then the return address, then the registers from the ninth on
that the function has to restore. -/
structure Frame where
  locals : UInt32
  saved : List Reg
  deriving DecidableEq, Repr

namespace Frame

def size (frame : Frame) : UInt32 :=
  frame.locals + 4 + 4 * UInt32.ofNat frame.saved.length

def slot (frame : Frame) (index : Nat) : UInt32 :=
  frame.locals + 4 + 4 * UInt32.ofNat index

def ofFunction? (function : Function) : Option Frame :=
  let saved := (List.range (function.maxRegister + 1 - 9)).map (· + 9)
  if function.code.any Instr.isCall || function.reserved ≠ 0 || !saved.isEmpty then
    some ⟨function.reserved, saved⟩
  else none

def entry (frame : Frame) : List BlockOp :=
  [.reserve frame.size, .save Reg.link frame.locals] ++
    frame.saved.zipIdx.map fun (register, index) => .save register (frame.slot index)

def exit (frame : Frame) : List BlockOp :=
  (frame.saved.zipIdx.reverse.map fun (register, index) => .restore register (frame.slot index)) ++
    [.restore Reg.link frame.locals, .release frame.size]

end Frame

def mnemonic : AluOp → String
  | .addI => "add"
  | .subI => "sub"
  | .mulI => "mul"
  | .divI => "divs"
  | .modI => "mods"
  | .andI => "and"
  | .orI => "or"
  | .xorI => "xor"
  | .shlI => "lsl"
  | .shrI => "asr"
  | .eqI | .eqS => "ceq"
  | .neqI | .neqS => "cne"
  | .ltI | .ltS => "clt"
  | .lteI | .lteS => "cle"
  | .gtI | .gtS => "cgt"
  | .gteI | .gteS => "cge"
  | .addR => "addf"
  | .subR => "subf"
  | .mulR => "mulf"
  | .divR => "divf"
  | .modR => "modf"
  | .eqR => "ceqf"
  | .neqR => "cnef"
  | .ltR => "cltf"
  | .lteR => "clef"
  | .gtR => "cgtf"
  | .gteR => "cgef"
  | .idx1 => "idx1"
  | .idx4 => "idx4"

def operandNames (function : Function) (labelBase : Nat) : OperandNames where
  register := function.registerName
  label := fun label => s!"L{labelBase + label}"
  operation := mnemonic
  field := fun field => toString field.offset

def instrOps (frame? : Option Frame) : Instr → List BlockOp
  | .nop => []
  | .start => (frame?.map Frame.entry).getD []
  | .ret returns => (frame?.map Frame.exit).getD [] ++ [.code (.ret returns)]
  | instr => [.code instr]

def block (function : Function) : List BlockOp :=
  function.code.toList.flatMap (instrOps (Frame.ofFunction? function))

def functionLines (labelBase : Nat) (function : Function) : List String :=
  [function.name ++ ":"] ++ function.comments.map ("# " ++ ·) ++
    (block function).map (BlockOp.text (operandNames function labelBase)) ++ [""]

def blockLines : Nat → List Function → List String
  | _, [] => []
  | labelBase, function :: rest =>
    functionLines labelBase function ++ blockLines (labelBase + function.labelCount) rest

def lines (program : Program) : List String :=
  ["# Generated by fplc"] ++ blockLines 0 program.functions ++ dataLines program

def text (program : Program) : String :=
  String.join ((lines program).map (· ++ "\n"))

end FplCompiler.Assembly
