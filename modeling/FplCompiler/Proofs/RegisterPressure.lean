import FplCompiler.Proofs.Allocation
import Mathlib.Data.List.Perm.Subperm

/-!
Allocation fails only under pressure. A machine register that is closed to a register holds one of its neighbours, and
different machine registers hold different ones.
-/

namespace FplCompiler.Ir

namespace Allocation

theorem Consistent.crowded {graph : Interference} {state : Allocation} (symmetric : Symmetric graph)
    (consistent : Consistent graph state) {register : Nat} (inside : register < graph.size)
    (blocked : ∀ machine : Nat, 1 ≤ machine ∧ machine ≤ 28 → register ∈ state.interference.neighbours machine) :
    28 ≤ (graph.neighbours register).size := by
  -- The neighbours of a machine register are those of the registers that it is the home of, however they came there.
  have held (machine : Nat) (member : machine ∈ allocatable) :
      ∃ holder, state.home? holder = some machine ∧ register ∈ graph.neighbours holder := by
    have range := mem_allocatable.mp member
    exact (consistent.merged machine (Nat.lt_of_le_of_lt range.2 (by decide)) register).mp (blocked machine range)
  choose! holder home interferes using held
  -- A register has one home, so that no two machine registers are held by the same one.
  have distinct : (allocatable.map holder).Nodup := by
    refine List.Nodup.map_on (fun first member second otherMember same => ?_) (by decide)
    have homes := home first member
    rw [same, home second otherMember] at homes
    exact (Option.some.inj homes).symm
  have neighbours : allocatable.map holder ⊆ (graph.neighbours register).toList := by
    intro other member
    obtain ⟨machine, listed, rfl⟩ := List.mem_map.mp member
    have holderInside := consistent.assignedSize ▸ lt_of_home? (home machine listed)
    exact NatSet.mem_toList.mpr ((symmetric _ _ holderInside inside).mp (interferes machine listed))
  exact (List.subperm_of_subset distinct neighbours).length_le

end Allocation

namespace Function

open Allocation

/-- An allocation that fails names a register with at least 28 neighbours. Where no register has so many, one of the
allocatable registers is left for each of them, whichever registers were given homes before and in whatever order. -/
theorem allocation_fails_only_under_pressure (function : Function) (live : LiveMap) :
    let graph := function.interference live
    let first := Allocation.start function.registers.size graph
    (∀ failure, function.allocate live = .error failure → ∃ register state,
      function.allocation live = .error (register, state) ∧
        failure.error = .noRegister (function.registerName register) ∧ 28 ≤ (graph.neighbours register).size) ∧
    ((∀ register : Nat, Reg.machineCount ≤ register → register < function.registers.size →
        (graph.neighbours register).size < 28) →
      (∃ allocated, function.allocate live = .ok allocated) ∧
      (∀ moves, ∃ final, color moves (function.coloringOrder graph) (first.coalesce moves) = .ok final) ∧
      ∀ state, first.Reaches state → ∀ register : Nat, Reg.machineCount ≤ register → register < function.registers.size →
        ∃ machine ∈ allocatable, ¬ register ∈ state.interference.neighbours machine) := by
  intro graph first
  have crowded {state : Allocation} (reaches : first.Reaches state) {register : Nat}
      (inside : register < function.registers.size)
      (blocked : ∀ machine : Nat, 1 ≤ machine ∧ machine ≤ 28 → register ∈ state.interference.neighbours machine) :
      28 ≤ (graph.neighbours register).size :=
    (reached_consistent reaches).crowded (interference_symmetric function live)
      ((size_interference function live).symm ▸ inside) blocked
  have stuck (moves : List (Reg × Reg)) (register : Nat) (state : Allocation)
      (failed : color moves (function.coloringOrder graph) (first.coalesce moves) = .error (register, state)) :
      register ∈ function.coloringOrder graph ∧ 28 ≤ (graph.neighbours register).size := by
    obtain ⟨reaches, member, blocked⟩ := (color_reaches _).2 register state failed
    exact ⟨member, crowded ((coalesce_reaches moves first).trans reaches) (mem_coloringOrder.mp member).1 blocked⟩
  refine ⟨fun failure failed => ?_, fun sparse => ?_⟩
  · unfold allocate at failed
    split at failed
    next register state stopped =>
      exact ⟨register, state, stopped, by rw [← Except.error.inj failed], (stuck _ register state stopped).2⟩
    next => cases failed
  · have succeeds (moves : List (Reg × Reg)) :
        ∃ final, color moves (function.coloringOrder graph) (first.coalesce moves) = .ok final := by
      cases outcome : color moves (function.coloringOrder graph) (first.coalesce moves) with
      | ok final => exact ⟨final, rfl⟩
      | error failure =>
        obtain ⟨member, many⟩ := stuck moves failure.1 failure.2 outcome
        obtain ⟨inside, large, -⟩ := mem_coloringOrder.mp member
        exact absurd (sparse _ large inside) (Nat.not_lt.mpr many)
    refine ⟨?_, succeeds, fun state reaches register large inside => ?_⟩
    · obtain ⟨final, done⟩ := succeeds function.moves
      have allocates : function.allocation live = .ok final := done
      exact ⟨_, by rw [allocate, allocates]⟩
    · by_contra closed
      refine absurd (sparse register large inside) (Nat.not_lt.mpr (crowded reaches inside fun machine range => ?_))
      by_contra clear
      exact closed ⟨machine, mem_allocatable.mpr range, clear⟩

end Function

end FplCompiler.Ir
