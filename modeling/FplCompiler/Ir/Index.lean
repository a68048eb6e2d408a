import FplCompiler.Ir.Function

/-! Making the index of a function. A temporary that two instructions write has no index. -/

namespace FplCompiler.Ir

inductive BackendError where
  | writtenTwice (register : String)
  | noRegister (register : String)
  deriving DecidableEq, Repr

def BackendError.message : BackendError → String
  | writtenTwice register => s!"Reg {register} is not SSA"
  | noRegister register => s!"Unable to find a register for {register}"

structure Failure where
  error : BackendError
  function : Function

abbrev Outcome := Except Failure Function

namespace Index

def countUse (index : Index) (register : Reg) : Index :=
  { index with uses := index.uses.modify register (· + 1) }

def addDefinition (index : Index) (register : Reg) (place : Nat) : Index :=
  { index with defs := index.defs.modify register (· ++ [place]) }

def addLabel (index : Index) (place : Nat) : Instr → Index
  | .label label => { index with labelAt := index.labelAt.modify label fun _ => some place }
  | .jump label | .branch _ _ _ label =>
    { index with labelUses := index.labelUses.modify label (· + 1) }
  | _ => index

def addCode (kind : Reg → RegKind) : List Instr → Nat → Index → Index × Option Reg
  | [], _, index => (index, none)
  | instr :: rest, place, index =>
    let index := index.addLabel place instr
    match instr.def? with
    | some register =>
      if kind register = .temp && !(index.definitions register).isEmpty then (index, some register)
      else
        addCode kind rest (place + 1)
          (instr.uses.foldl countUse (index.addDefinition register place))
    | none => addCode kind rest (place + 1) (instr.uses.foldl countUse index)

end Index

def Function.rebuild (function : Function) : Outcome :=
  let code := function.code.filter (· ≠ .nop)
  let blank := Index.blank function.registers.size function.labelCount
  match Index.addCode (fun register => (function.info register).kind) code.toList 0 blank with
  | (index, none) => .ok { function with code := code, index := index }
  | (index, some register) =>
    .error ⟨.writtenTwice (function.registerName register), { function with code := code, index := index }⟩

end FplCompiler.Ir
