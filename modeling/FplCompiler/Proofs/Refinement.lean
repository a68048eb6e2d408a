import FplCompiler.Proofs.Renaming
import Mathlib.Data.List.Basic

/-!
When code may stand for other code: every careful run of the one has a careful run of the other that does the same to
the outside and to the machine registers, and is not shorter by more than a factor. Leaving out deleted instructions is
such a change.
-/

namespace FplCompiler.Ir

variable {μ : Type} {around : Surroundings μ} {state next : MachineState μ} {code second first third : Array Instr}
  {registers : Reg → Int32} {written : Reg → Prop} {instr : Instr} {place steps : Nat}

structure Agree (first second : Array Instr) (state other : MachineState μ) : Prop where
  memory : other.memory = state.memory
  trace : other.trace = state.trace
  machine : ∀ register < Reg.machineCount, other.read register = state.read register
  returns : ∀ returns, first[state.place]? = some (.ret returns) → second[other.place]? = some (.ret returns)

theorem Agree.trans {other last : MachineState μ}
    (lower : Agree first second state other) (upper : Agree second third other last) :
    Agree first third state last where
  memory := upper.memory.trans lower.memory
  trace := upper.trace.trans lower.trace
  machine register small := (upper.machine register small).trans (lower.machine register small)
  returns returns found := upper.returns returns (lower.returns returns found)

def Preserves (around : Surroundings μ) (first second : Array Instr) : Prop :=
  ∃ factor, ∀ (registers : Reg → Int32) (memory : μ) (steps : Nat) (written : Reg → Prop) (state : MachineState μ),
    CarefulRun around first (.entry registers memory) steps written state →
    ∃ otherSteps otherWritten other,
      CarefulRun around second (.entry registers memory) otherSteps otherWritten other ∧
        Agree first second state other ∧ steps ≤ (otherSteps + 1) * factor

theorem Preserves.refl (code : Array Instr) : Preserves around code code := by
  refine ⟨1, fun registers memory steps written state careful => ⟨steps, written, state, careful, ?_, by omega⟩⟩
  exact ⟨rfl, rfl, fun _ _ => rfl, fun _ found => found⟩

theorem Preserves.trans (lower : Preserves around first second)
    (upper : Preserves around second third) : Preserves around first third := by
  obtain ⟨lowerFactor, lowerRuns⟩ := lower
  obtain ⟨upperFactor, upperRuns⟩ := upper
  refine ⟨(upperFactor + 1) * lowerFactor, ?_⟩
  intro registers memory steps written state careful
  obtain ⟨middleSteps, _, middle, middleRun, lowerAgree, lowerBound⟩ := lowerRuns _ _ _ _ _ careful
  obtain ⟨lastSteps, lastWritten, last, lastRun, upperAgree, upperBound⟩ := upperRuns _ _ _ _ _ middleRun
  refine ⟨lastSteps, lastWritten, last, lastRun, lowerAgree.trans upperAgree, ?_⟩
  calc steps ≤ (middleSteps + 1) * lowerFactor := lowerBound
    _ ≤ ((lastSteps + 1) * (upperFactor + 1)) * lowerFactor := Nat.mul_le_mul_right _ (by rw [Nat.mul_succ]; omega)
    _ = (lastSteps + 1) * ((upperFactor + 1) * lowerFactor) := Nat.mul_assoc _ _ _

theorem CarefulRun.start_of_le {first : MachineState μ}
    (careful : CarefulRun around code first steps written state) {fewer : Nat}
    (bound : fewer ≤ steps) : ∃ written state, CarefulRun around code first fewer written state := by
  induction careful with
  | start =>
    obtain rfl := Nat.le_zero.mp bound
    exact ⟨_, _, .start⟩
  | @step steps written state next instr before found reads taken ih =>
    rcases Nat.le_succ_iff.mp bound with earlier | rfl
    · exact ih earlier
    · exact ⟨_, _, .step before found reads taken⟩

theorem Preserves.infinite (preserves : Preserves around first second) {memory : μ}
    (endless : ∀ steps, ∃ written state, CarefulRun around first (.entry registers memory) steps written state)
    (steps : Nat) : ∃ written state, CarefulRun around second (.entry registers memory) steps written state := by
  obtain ⟨factor, runs⟩ := preserves
  obtain ⟨written, state, careful⟩ := endless ((steps + 1) * factor + 1)
  obtain ⟨otherSteps, _, _, otherRun, _, bound⟩ := runs _ _ _ _ _ careful
  refine otherRun.start_of_le ?_
  by_contra short
  have less : (otherSteps + 1) * factor ≤ (steps + 1) * factor := Nat.mul_le_mul_right _ (by omega)
  omega

def keptBefore (code : Array Instr) (place : Nat) : Nat :=
  ((code.toList.take place).filter (· ≠ .nop)).length

section Kept

variable {code : Array Instr} (found : code[place]? = some instr)

include found

theorem take_succ_of_found : code.toList.take (place + 1) = code.toList.take place ++ [instr] := by
  rw [List.take_add_one, Array.getElem?_toList, found, Option.toList_some]

theorem keptBefore_succ (kept : instr ≠ .nop) : keptBefore code (place + 1) = keptBefore code place + 1 := by
  simp [keptBefore, take_succ_of_found found, kept]

theorem keptBefore_succ_nop (deleted : instr = .nop) : keptBefore code (place + 1) = keptBefore code place := by
  simp [keptBefore, take_succ_of_found found, deleted]

theorem filter_keptBefore (kept : instr ≠ .nop) :
    (code.filter (· ≠ .nop))[keptBefore code place]? = some instr := by
  have split : code.toList = code.toList.take place ++ instr :: code.toList.drop (place + 1) := by
    calc code.toList = code.toList.take (place + 1) ++ code.toList.drop (place + 1) :=
          (List.take_append_drop _ _).symm
      _ = _ := by rw [take_succ_of_found found, List.append_assoc, List.singleton_append]
  rw [← Array.getElem?_toList, Array.toList_filter, split]
  simp [keptBefore, kept]

end Kept

theorem labelPlace?_eq_some {label : Label}
    (placed : labelPlace? code label = some place) : code[place]? = some (.label label) := by
  simpa using List.find?_some placed

theorem keptBefore_push (code : Array Instr) (instr : Instr) (bound : place ≤ code.size) :
    keptBefore (code.push instr) place = keptBefore code place := by
  rw [keptBefore, Array.toList_push, List.take_append_of_le_length (by simpa using bound), keptBefore]

theorem labelPlace?_filter (instrs : List Instr) (label : Label) :
    labelPlace? (instrs.toArray.filter (· ≠ .nop)) label =
      (labelPlace? instrs.toArray label).map (keptBefore instrs.toArray) := by
  induction instrs using List.reverseRecOn with
  | nil => simp [labelPlace?]
  | append_singleton instrs instr ih =>
    have pushed : (instrs ++ [instr]).toArray = instrs.toArray.push instr := by simp
    have moved : (labelPlace? instrs.toArray label).map (keptBefore (instrs.toArray.push instr)) =
        (labelPlace? instrs.toArray label).map (keptBefore instrs.toArray) := by
      apply Option.map_congr
      intro place placed
      have bound := (Array.getElem?_eq_some_iff.mp (labelPlace?_eq_some placed)).1
      exact keptBefore_push _ instr (Nat.le_of_lt bound)
    rw [pushed, labelPlace?_push, Array.filter_push]
    by_cases deleted : instr = .nop
    · have unplaced : instr ≠ .label label := by simp [deleted]
      rw [if_neg unplaced, moved, ← ih]
      simp [deleted]
    · rw [if_pos (by simpa using deleted), labelPlace?_push]
      split
      · simp [keptBefore]
      · rw [ih, moved]

def MachineState.packed (code : Array Instr) (state : MachineState μ) : MachineState μ :=
  { state with place := keptBefore code state.place }

theorem step_packed
    (found : code[state.place]? = some instr) (kept : instr ≠ .nop) (taken : step around code state = some next) :
    step around (code.filter (· ≠ .nop)) (state.packed code) = some (next.packed code) := by
  have moved : effect around (labelPlace? (code.filter (· ≠ .nop))) (state.packed code) (instr.mapRegisters id) =
      (effect around (labelPlace? code) state instr).map (Effect.rename id (keptBefore code)) :=
    effect_mapRegisters (keptBefore_succ found kept).symm (fun label _ => labelPlace?_filter code.toList label) rfl
      (fun _ _ => rfl) (fun _ _ => rfl)
  rw [step_eq found] at taken
  obtain ⟨result, done, rfl⟩ := Option.map_eq_some_iff.mp taken
  rw [Instr.mapRegisters_id, done] at moved
  have packedFound : (code.filter (· ≠ .nop))[(state.packed code).place]? = some instr := filter_keptBefore found kept
  rw [step_eq packedFound, moved]
  simp [Effect.rename, Effect.apply, MachineState.packed]

theorem step_place_le (found : code[state.place]? = some instr) (taken : step around code state = some next) :
    next.place ≤ code.size := by
  rw [step_eq found] at taken
  obtain ⟨result, done, rfl⟩ := Option.map_eq_some_iff.mp taken
  rcases effect_next done with ⟨next, _⟩ | ⟨label, _, placed⟩
  · have inside : state.place < code.size := (Array.getElem?_eq_some_iff.mp found).1
    simp only [Effect.apply]
    omega
  · exact Nat.le_of_lt (Array.getElem?_eq_some_iff.mp (labelPlace?_eq_some placed)).1

theorem packed_run {memory : μ} (careful : CarefulRun around code (.entry registers memory) steps written state) :
    state.place ≤ code.size ∧ ∃ otherSteps,
      CarefulRun around (code.filter (· ≠ .nop)) (.entry registers memory) otherSteps written (state.packed code) ∧
        steps ≤ otherSteps * (code.size + 1) + state.place := by
  induction careful with
  | start => exact ⟨Nat.zero_le _, 0, .start, Nat.zero_le _⟩
  | @step steps written state next instr before found reads taken ih =>
    obtain ⟨_, otherSteps, run, bound⟩ := ih
    refine ⟨step_place_le found taken, ?_⟩
    by_cases deleted : instr = .nop
    · subst instr
      rw [step_eq found] at taken
      cases taken
      have same : (fun register => written register ∨ Instr.nop.def? = some register) = written := by
        simp [Instr.def?]
      have stays : (Effect.apply state (.plain state .keep)).packed code = state.packed code := by
        simp [MachineState.packed, Effect.apply, Effect.plain, Change.apply, keptBefore_succ_nop found rfl]
      refine ⟨otherSteps, ?_, ?_⟩
      · rwa [same, stays]
      · simp only [Effect.apply, Effect.plain]
        omega
    · refine ⟨otherSteps + 1, .step run (filter_keptBefore found deleted) reads (step_packed found deleted taken), ?_⟩
      rw [Nat.succ_mul]
      omega

theorem filter_preserves (code : Array Instr) : Preserves around code (code.filter (· ≠ .nop)) := by
  refine ⟨code.size + 1, ?_⟩
  intro registers memory steps written state careful
  obtain ⟨inside, otherSteps, run, bound⟩ := packed_run careful
  refine ⟨otherSteps, written, state.packed code, run, ⟨rfl, rfl, fun _ _ => rfl, ?_⟩, ?_⟩
  · intro returns found
    exact filter_keptBefore found (by simp)
  · rw [Nat.succ_mul]
    omega

end FplCompiler.Ir
