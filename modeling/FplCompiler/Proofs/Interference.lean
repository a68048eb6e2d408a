import FplCompiler.Ir.Allocation
import FplCompiler.Proofs.Liveness

/-!
The interference of the registers of a function as a list of edges: what an instruction connects, and that the relation
of neighbours is symmetric.
-/

namespace FplCompiler.Ir

namespace Interference

def moved? : Instr → Option Reg
  | .move _ source => some source
  | _ => none

theorem eq_move {instr : Instr} {dest source : Reg} (written : instr.def? = some dest)
    (copied : moved? instr = some source) : instr = .move dest source := by
  cases instr <;> simp_all [moved?, Instr.def?]

def writtenEdges (after : NatSet) (instr : Instr) : List (Reg × Reg) :=
  match instr.def? with
  | some dest =>
    (after.toList.filter fun register => register ≠ dest && some register ≠ moved? instr).map
      fun register => (dest, register)
  | none => []

def callEdges (after : NatSet) : List (Reg × Reg) :=
  after.toList.flatMap fun register =>
    (callerSaved.filter fun clobbered => register ≠ clobbered).map fun clobbered => (clobbered, register)

def instrEdges (after : NatSet) (instr : Instr) : List (Reg × Reg) :=
  writtenEdges after instr ++ if instr.isCall then callEdges after else []

def connectAll (graph : Interference) (edges : List (Reg × Reg)) : Interference :=
  edges.foldl (fun graph edge => graph.connect edge.1 edge.2) graph

theorem addInstr_eq (after : NatSet) (graph : Interference) (instr : Instr) :
    graph.addInstr after instr = graph.connectAll (instrEdges after instr) := by
  simp only [addInstr, connectAll, instrEdges, writtenEdges]
  cases instr with
  | call target arguments returns =>
    cases returns <;> simp [Instr.def?, Instr.isCall, moved?, callEdges, List.foldl_map, List.foldl_filter,
      List.foldl_flatMap]
  | callRegister target arguments returns =>
    cases returns <;> simp [Instr.def?, Instr.isCall, moved?, callEdges, List.foldl_map, List.foldl_filter,
      List.foldl_flatMap]
  | _ => simp [Instr.def?, Instr.isCall, moved?, List.foldl_map, List.foldl_filter]

theorem size_connect (graph : Interference) (first second : Reg) : (graph.connect first second).size = graph.size := by
  simp [connect]

variable {graph : Interference}

theorem mem_connect {first second register other : Nat} (inside : register < graph.size) :
    other ∈ (graph.connect first second).neighbours register ↔
      other ∈ graph.neighbours register ∨ (register = first ∧ other = second) ∨
        (register = second ∧ other = first) := by
  simp only [connect, neighbours]
  rw [getD_modify _ _ _ _ _ (by simpa using inside), getD_modify _ _ _ _ _ inside]
  by_cases atSecond : second = register <;> by_cases atFirst : first = register <;> simp [atSecond, atFirst, eq_comm]

theorem size_connectAll (graph : Interference) (edges : List (Reg × Reg)) : (graph.connectAll edges).size = graph.size := by
  induction edges generalizing graph with
  | nil => rfl
  | cons edge rest ih => exact (ih _).trans (size_connect graph edge.1 edge.2)

theorem mem_connectAll {edges : List (Reg × Reg)} {register other : Nat} (inside : register < graph.size) :
    other ∈ (graph.connectAll edges).neighbours register ↔
      other ∈ graph.neighbours register ∨ (register, other) ∈ edges ∨ (other, register) ∈ edges := by
  induction edges generalizing graph with
  | nil => simp [connectAll]
  | cons edge rest ih =>
    have tail := ih ((size_connect graph edge.1 edge.2).symm ▸ inside)
    simp only [connectAll, List.foldl_cons] at tail ⊢
    rw [tail, mem_connect inside]
    simp only [List.mem_cons]
    grind

theorem mem_callerSaved {register : Nat} : register ∈ callerSaved ↔ IsCallerSaved register := by
  simp only [callerSaved, List.mem_map, List.mem_range, IsCallerSaved]
  constructor
  · omega
  · rintro ⟨lower, upper⟩
    exact ⟨register - 1, by omega, by omega⟩

theorem mem_instrEdges {after : NatSet} {instr : Instr} {register other : Nat} :
    (register, other) ∈ instrEdges after instr ↔
      other ∈ after ∧ other ≠ register ∧
        ((instr.def? = some register ∧ some other ≠ moved? instr) ∨
          (instr.isCall = true ∧ IsCallerSaved register)) := by
  have written : (register, other) ∈ writtenEdges after instr ↔
      instr.def? = some register ∧ other ∈ after ∧ other ≠ register ∧ some other ≠ moved? instr := by
    simp only [writtenEdges]
    cases instr.def? with
    | none => simp
    | some dest =>
      simp only [List.mem_map, List.mem_filter, NatSet.mem_toList, Bool.and_eq_true, decide_eq_true_eq,
        Prod.mk.injEq, Option.some.injEq]
      constructor
      · rintro ⟨member, ⟨live, different, notMoved⟩, rfl, rfl⟩
        exact ⟨rfl, live, different, notMoved⟩
      · rintro ⟨rfl, live, different, notMoved⟩
        exact ⟨other, ⟨live, different, notMoved⟩, rfl, rfl⟩
  have called : (register, other) ∈ callEdges after ↔ other ∈ after ∧ other ≠ register ∧ IsCallerSaved register := by
    simp only [callEdges, List.mem_flatMap, List.mem_map, List.mem_filter, NatSet.mem_toList, decide_eq_true_eq,
      Prod.mk.injEq, mem_callerSaved]
    constructor
    · rintro ⟨member, live, clobbered, ⟨saved, different⟩, rfl, rfl⟩
      exact ⟨live, different, saved⟩
    · rintro ⟨live, different, saved⟩
      exact ⟨other, live, register, ⟨saved, different⟩, rfl, rfl⟩
  simp only [instrEdges, List.mem_append]
  cases instr.isCall
  · grind
  · grind

end Interference

namespace Function

variable {function : Function} {live : LiveMap}

def edges (function : Function) (live : LiveMap) : List (Reg × Reg) :=
  function.code.toList.zipIdx.flatMap fun entry => Interference.instrEdges (live.after entry.2) entry.1

theorem interference_eq (function : Function) (live : LiveMap) :
    function.interference live =
      Interference.connectAll (Array.replicate function.registers.size ∅) (function.edges live) := by
  simp only [interference, edges, Interference.connectAll, List.foldl_flatMap, Interference.addInstr_eq]

theorem mem_edges {edge : Reg × Reg} :
    edge ∈ function.edges live ↔
      ∃ place instr, function.code[place]? = some instr ∧
        edge ∈ Interference.instrEdges (live.after place) instr := by
  simp only [edges, List.mem_flatMap, List.mem_zipIdx_iff_getElem?, Array.getElem?_toList, Prod.exists]
  constructor
  · rintro ⟨instr, place, found, member⟩
    exact ⟨place, instr, found, member⟩
  · rintro ⟨place, instr, found, member⟩
    exact ⟨instr, place, found, member⟩

theorem size_interference (function : Function) (live : LiveMap) :
    (function.interference live).size = function.registers.size := by
  simp [interference_eq, Interference.size_connectAll]

theorem mem_neighbours_interference {register other : Nat} (inside : register < function.registers.size) :
    other ∈ (function.interference live).neighbours register ↔
      (register, other) ∈ function.edges live ∨ (other, register) ∈ function.edges live := by
  have none : ¬ other ∈ Interference.neighbours (Array.replicate function.registers.size ∅) register :=
    not_mem_before_replicate function.registers.size register other
  rw [interference_eq, Interference.mem_connectAll (by simpa using inside)]
  simp [none]

end Function

end FplCompiler.Ir
