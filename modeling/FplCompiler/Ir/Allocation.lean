import FplCompiler.Ir.Liveness
import FplCompiler.Ir.Peephole

/-! Giving each value a machine register. Two registers interfere if one is written while the other is live, the two
sides of a move apart, and what is live across a call interferes with the registers that the call may change. Where a
move joins two registers they share a machine register if they can; the others are coloured greedily, those with the
most neighbours first. -/

namespace FplCompiler.Ir

abbrev Interference := Array NatSet

namespace Interference

def neighbours (graph : Interference) (register : Reg) : NatSet :=
  graph.getD register ∅

def connect (graph : Interference) (first second : Reg) : Interference :=
  (graph.modify first (·.insert second)).modify second (·.insert first)

def callerSaved : List Reg :=
  (List.range Reg.result).map (· + 1)

def addInstr (after : NatSet) (graph : Interference) (instr : Instr) : Interference :=
  let source? :=
    match instr with
    | .move _ source => some source
    | _ => none
  let written :=
    match instr.def? with
    | some dest =>
      after.toList.foldl
        (fun graph register =>
          if register ≠ dest && some register ≠ source? then graph.connect dest register else graph)
        graph
    | none => graph
  if instr.isCall then
    after.toList.foldl
      (fun graph register =>
        callerSaved.foldl
          (fun graph clobbered => if register ≠ clobbered then graph.connect clobbered register else graph)
          graph)
      written
  else written

end Interference

def Function.interference (function : Function) (live : LiveMap) : Interference :=
  function.code.toList.zipIdx.foldl
    (fun graph (instr, place) => graph.addInstr (live.after place) instr)
    (Array.replicate function.registers.size ∅)

/-- The state of an allocation: the machine registers given so far, in order, and the interference, in which a machine
register has taken over the neighbours of the values that it holds. -/
structure Allocation where
  assigned : Array (Option Reg)
  interference : Interference
  steps : List (Reg × Reg)

namespace Allocation

def allocatable : List Reg :=
  (List.range 28).map (· + 1)

def isAllocatable (machine : Reg) : Bool :=
  1 ≤ machine && machine ≤ 28

def home? (state : Allocation) (register : Reg) : Option Reg :=
  state.assigned.getD register none

def start (registers : Nat) (interference : Interference) : Allocation where
  assigned := ((List.range registers).map fun register =>
    if register.blt Reg.machineCount then some register else none).toArray
  interference := interference
  steps := []

def assign (state : Allocation) (register machine : Reg) : Allocation where
  assigned := state.assigned.modify register fun _ => some machine
  interference := state.interference.modify machine
    (·.union (state.interference.neighbours register))
  steps := state.steps ++ [(register, machine)]

def join (state : Allocation) (register other : Reg) : Allocation :=
  match state.home? register, state.home? other with
  | none, some machine =>
    if isAllocatable machine && !(state.interference.neighbours machine).contains register then
      state.assign register machine
    else state
  | _, _ => state

def joinMoves (moves : List (Reg × Reg)) (state : Allocation) : Allocation :=
  moves.foldl (fun state (source, dest) => (state.join source dest).join dest source) state

def coalesceWithin (moves : List (Reg × Reg)) : Nat → Allocation → Allocation
  | 0, state => state
  | bound + 1, state =>
    let next := joinMoves moves state
    if next.steps.length = state.steps.length then state else coalesceWithin moves bound next

def coalesce (moves : List (Reg × Reg)) (state : Allocation) : Allocation :=
  coalesceWithin moves (state.assigned.size + 1) state

def color (moves : List (Reg × Reg)) : List Reg → Allocation → Except (Reg × Allocation) Allocation
  | [], state => .ok state
  | register :: rest, state =>
    if (state.home? register).isSome then color moves rest state
    else
      match allocatable.find? fun machine => !(state.interference.neighbours machine).contains register with
      | none => .error (register, state)
      | some machine => color moves rest ((state.assign register machine).coalesce moves)

end Allocation

namespace Function

def moves (function : Function) : List (Reg × Reg) :=
  function.code.toList.filterMap fun
    | .move dest source => some (source, dest)
    | _ => none

def coloringOrder (function : Function) (graph : Interference) : List Reg :=
  let needed := (List.range function.registers.size).filter fun register =>
    Reg.machineCount ≤ register &&
      (function.index.useCount register > 0 || !(function.index.definitions register).isEmpty)
  let weighted := needed.map fun register => (register, (graph.neighbours register).size)
  (weighted.mergeSort fun first second => second.2 ≤ first.2).map (·.1)

def allocation (function : Function) (live : LiveMap) : Except (Reg × Allocation) Allocation :=
  let graph := function.interference live
  let start := Allocation.start function.registers.size graph
  Allocation.color function.moves (function.coloringOrder graph) (start.coalesce function.moves)

def noteHomes (function : Function) (steps : List (Reg × Reg)) : Function :=
  let comments := steps.filterMap fun (register, machine) =>
    if (function.info register).kind = .temp then none
    else some (function.registerName register ++ " = " ++ function.registerName machine)
  { function with
    comments := function.comments ++ comments
    maxRegister := steps.foldl (fun highest step => max highest step.2) function.maxRegister }

def allocate (function : Function) (live : LiveMap) : Outcome :=
  match function.allocation live with
  | .error (register, state) =>
    .error ⟨.noRegister (function.registerName register), function.noteHomes state.steps⟩
  | .ok state =>
    let noted := function.noteHomes state.steps
    .ok { noted with
      code := function.code.map (Instr.mapRegisters fun register => (state.home? register).getD register) }

def finish (function : Function) : Outcome := do
  let simplified ← function.simplify
  let allocated ← simplified.allocate simplified.liveMap
  allocated.simplify

def interferenceDump (function : Function) (graph : Interference) : String :=
  let line (entry : NatSet × Nat) : Option String :=
    if entry.1.isEmpty then none
    else
      some (function.registerName entry.2 ++ " = " ++
        ", ".intercalate (entry.1.toList.map function.registerName) ++ "\n")
  "Interference:\n" ++ String.join (graph.toList.zipIdx.filterMap line)

end Function

end FplCompiler.Ir
