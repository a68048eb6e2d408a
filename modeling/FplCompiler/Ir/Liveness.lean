import FplCompiler.Ir.Function

/-! Which registers are live on entry to each instruction: those that some path reads before it writes them. -/

namespace FplCompiler.Ir

abbrev LiveMap := Array NatSet

namespace LiveMap

def before (live : LiveMap) (place : Nat) : NatSet :=
  live.getD place ∅

def after (live : LiveMap) (place : Nat) : NatSet :=
  live.before (place + 1)

end LiveMap

namespace Function

def successors (function : Function) (place : Nat) : Instr → List Nat
  | .jump label => (function.index.position? label).toList
  | .branch _ _ _ label => (place + 1) :: (function.index.position? label).toList
  | .ret _ => []
  | _ => [place + 1]

def liveBefore (function : Function) (live : LiveMap) (place : Nat) (instr : Instr) : NatSet :=
  let following := (function.successors place instr).foldl (fun set next => set.union (live.before next)) ∅
  let kept :=
    match instr.def? with
    | some register => following.erase register
    | none => following
  (instr.uses.filter (· ≠ Reg.zero)).foldl NatSet.insert kept

def updateLive (function : Function) (live : LiveMap) (place : Nat) : LiveMap :=
  match function.code[place]? with
  | some instr => live.modify place fun _ => function.liveBefore live place instr
  | none => live

def sweepLive (function : Function) (live : LiveMap) : LiveMap :=
  (List.range function.code.size).reverse.foldl function.updateLive live

def liveWithin (function : Function) : Nat → LiveMap → LiveMap
  | 0, live => live
  | bound + 1, live =>
    let next := function.sweepLive live
    if next = live then live else liveWithin function bound next

def reads (function : Function) : List Reg :=
  function.code.toList.flatMap Instr.uses

def noneLive (function : Function) : LiveMap :=
  Array.replicate (function.code.size + 1) ∅

/-- The live registers of an indexed function. A sweep that changes something adds a register that is read to the live
ones of a place, so the bound is never reached. -/
def liveMap (function : Function) : LiveMap :=
  function.liveWithin (function.code.size * function.reads.length + 1) function.noneLive

def liveDump (function : Function) (live : LiveMap) : String :=
  let line (entry : Instr × Nat) : String :=
    let text := function.instrText entry.1
    let padded := text ++ String.ofList (List.replicate (24 - text.length) ' ')
    padded ++ " " ++ " ".intercalate ((live.before entry.2).toList.map function.registerName) ++ "\n"
  String.join (function.code.toList.zipIdx.map line)

end Function

end FplCompiler.Ir
