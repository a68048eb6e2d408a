import FplCompiler.Ir.Index

/-! Local simplification. Values that nobody reads are dropped, small constants become immediate operands, operations
on constants are folded, and jumps to the next instruction and labels without jumps disappear. -/

namespace FplCompiler.Ir

def isSmall (value : Int32) : Bool :=
  -0xfff ≤ value && value ≤ 0xfff

namespace Function

def isDead (function : Function) (register : Reg) : Bool :=
  !function.isMachine register && function.index.useCount register = 0

/-- The small constant that a register holds if the one instruction that writes it loads one, or moves it from
such a register, through at most so many moves. Machine registers are not followed: they change at calls. -/
def smallConstant? (function : Function) : Nat → Reg → Option Int32
  | moves, register =>
    if function.isMachine register then none
    else
      match function.index.definitions register with
      | [place] =>
        match function.code[place]?, moves with
        | some (.constant _ value), _ => if isSmall value then some value else none
        | some (.move _ source), moves + 1 => smallConstant? function moves source
        | _, _ => none
      | _ => none

def moveLimit : Nat := 10

def simpler? (function : Function) (place : Nat) : Instr → Option Instr
  | .move dest source => if function.isDead dest || dest = source then some .nop else none
  | .constant dest _ => if function.isDead dest then some .nop else none
  | .alu op dest left right =>
    if function.isDead dest then some .nop
    else
      match function.smallConstant? moveLimit right with
      | some value => some (.aluImm op dest left value)
      | none =>
        match function.smallConstant? moveLimit left with
        | some value => if op.isCommutative then some (.aluImm op dest right value) else none
        | none => none
  | .aluImm op dest left right =>
    if function.isDead dest then some .nop
    else
      match function.smallConstant? moveLimit left with
      | some value => (op.evaluate? value right).map (.constant dest)
      | none => none
  | .jump label => if function.index.position? label = some (place + 1) then some .nop else none
  | .label label => if function.index.jumpCount label = 0 then some .nop else none
  | _ => none

def simplifyAt (function : Function) (place : Nat) : Function :=
  match function.code[place]?.bind (function.simpler? place) with
  | some instr => { function with code := function.code.modify place fun _ => instr }
  | none => function

def simplifyOnce (function : Function) : Function :=
  (List.range function.code.size).foldl simplifyAt function

def simplifyWithin : Nat → Function → Outcome
  | 0, function => .ok function
  | bound + 1, function =>
    match function.rebuild with
    | .error failure => .error failure
    | .ok indexed =>
      let next := indexed.simplifyOnce
      if next.code = indexed.code then .ok indexed else simplifyWithin bound next

def simplifyBound (function : Function) : Nat :=
  3 * function.code.size + 1

def simplify (function : Function) : Outcome :=
  function.simplifyWithin function.simplifyBound

def changes (before after : Function) : List String :=
  (List.range before.code.size).filterMap fun place =>
    match before.code[place]?, after.code[place]? with
    | some old, some new =>
      if old = new then none
      else some s!"{place}: {before.instrText old} -> {before.instrText new}"
    | _, _ => none

def simplifyTrace : Nat → Function → List String
  | 0, _ => []
  | bound + 1, function =>
    match function.rebuild with
    | .error _ => []
    | .ok indexed =>
      let next := indexed.simplifyOnce
      if next.code = indexed.code then [] else changes indexed next ++ simplifyTrace bound next

end Function

end FplCompiler.Ir
