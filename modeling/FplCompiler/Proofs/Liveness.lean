import FplCompiler.Ir.Liveness
import FplCompiler.Proofs.Index
import Mathlib.Data.Finset.Prod
import Mathlib.Logic.Function.Iterate

/-!
The computation of live registers ends in a fixpoint. A sweep only adds registers to the live sets, so that one which
changes something makes the set of pairs of a place and a register live there larger, and there are no more of these
than the bound on the number of sweeps.
-/

namespace FplCompiler

namespace NatSet

theorem mem_foldl_insert {elements : List Nat} {set : NatSet} {element : Nat} :
    element ∈ elements.foldl NatSet.insert set ↔ element ∈ set ∨ element ∈ elements := by
  induction elements generalizing set with
  | nil => simp
  | cons first rest ih => simp [ih, or_assoc]

end NatSet

namespace Ir

namespace LiveMap

structure Below (first second : LiveMap) : Prop where
  size : first.size = second.size
  live : ∀ place register : Nat, register ∈ first.before place → register ∈ second.before place

theorem Below.refl (live : LiveMap) : Below live live :=
  ⟨rfl, fun _ _ member => member⟩

theorem Below.trans {first second third : LiveMap} (lower : Below first second) (upper : Below second third) :
    Below first third :=
  ⟨lower.size.trans upper.size, fun place register member =>
    upper.live place register (lower.live place register member)⟩

theorem Below.antisymm {first second : LiveMap} (forward : Below first second) (backward : Below second first) :
    first = second := by
  apply Array.ext forward.size
  intro place firstBound secondBound
  have same : first.before place = second.before place := by
    ext register
    exact ⟨forward.live place register, backward.live place register⟩
  simpa [before, firstBound, secondBound] using same

end LiveMap

namespace Function

variable {function : Function} {live : LiveMap} {instr : Instr} {place register : Nat} {kept : LiveMap → Prop}

theorem mem_liveBefore :
    register ∈ function.liveBefore live place instr ↔
      (register ∈ instr.uses ∧ register ≠ Reg.zero) ∨
        ((∃ next ∈ function.successors place instr, register ∈ live.before next) ∧
          instr.def? ≠ some register) := by
  simp only [liveBefore, NatSet.mem_foldl_insert, List.mem_filter, decide_eq_true_eq]
  cases defined : instr.def? with
  | none =>
    simp only [NatSet.mem_foldl_union, EmptyCollection.emptyCollection, NatSet.not_mem_empty]
    simp [or_comm]
  | some dest =>
    simp only [NatSet.mem_erase, NatSet.mem_foldl_union, EmptyCollection.emptyCollection, NatSet.not_mem_empty,
      false_or]
    simp only [ne_eq, Option.some.injEq, eq_comm, or_comm]

theorem liveBefore_mono {first second : LiveMap} (below : LiveMap.Below first second)
    (member : register ∈ function.liveBefore first place instr) :
    register ∈ function.liveBefore second place instr := by
  rw [mem_liveBefore] at member ⊢
  rcases member with used | ⟨⟨next, successor, live⟩, kept⟩
  · exact Or.inl used
  · exact Or.inr ⟨⟨next, successor, below.live next register live⟩, kept⟩

structure Growing (function : Function) (live : LiveMap) : Prop where
  size : live.size = function.code.size + 1
  below : ∀ place instr, function.code[place]? = some instr →
    ∀ register : Nat, register ∈ live.before place → register ∈ function.liveBefore live place instr

theorem before_updateLive (size : live.size = function.code.size + 1)
    (found : function.code[place]? = some instr) (other : Nat) : (function.updateLive live place).before other =
      if place = other then function.liveBefore live place instr else live.before other := by
  have placeBound : place < function.code.size := (Array.getElem?_eq_some_iff.mp found).1
  simp only [updateLive, found, LiveMap.before]
  by_cases inside : other < live.size
  · rw [getD_modify _ _ _ _ _ inside]
  · have different : place ≠ other := by omega
    simp [different, inside]

theorem size_updateLive (live : LiveMap) (place : Nat) : (function.updateLive live place).size = live.size := by
  simp only [updateLive]
  split <;> simp

theorem Growing.updateLive (growing : function.Growing live) (place : Nat) :
    LiveMap.Below live (function.updateLive live place) ∧ function.Growing (function.updateLive live place) := by
  cases found : function.code[place]? with
  | none =>
    have same : function.updateLive live place = live := by simp [Function.updateLive, found]
    rw [same]
    exact ⟨.refl live, growing⟩
  | some instr =>
    have below : LiveMap.Below live (function.updateLive live place) := by
      refine ⟨(size_updateLive live place).symm, ?_⟩
      intro other register member
      rw [before_updateLive growing.size found]
      by_cases same : place = other
      · subst other
        simpa using growing.below place instr found register member
      · simpa [same] using member
    refine ⟨below, (size_updateLive live place).trans growing.size, ?_⟩
    intro other otherInstr otherFound register member
    rw [before_updateLive growing.size found] at member
    by_cases same : place = other
    · subst other
      rw [found, Option.some.injEq] at otherFound
      subst otherInstr
      simp only [if_true] at member
      exact liveBefore_mono below member
    · simp only [same] at member
      exact liveBefore_mono below (growing.below other otherInstr otherFound register member)

theorem Growing.updates (growing : function.Growing live) (places : List Nat) :
    LiveMap.Below live (places.foldl function.updateLive live) ∧
      function.Growing (places.foldl function.updateLive live) := by
  refine List.foldlRecOn (motive := fun later => LiveMap.Below live later ∧ function.Growing later)
    _ _ ⟨.refl live, growing⟩ fun current both place _ => ?_
  have step := both.2.updateLive place
  exact ⟨both.1.trans step.1, step.2⟩

theorem Growing.update_eq (growing : function.Growing live) {places : List Nat}
    (unchanged : places.foldl function.updateLive live = live) :
    ∀ place ∈ places, function.updateLive live place = live := by
  induction places with
  | nil => simp
  | cons first rest ih =>
    have step := growing.updateLive first
    have below : LiveMap.Below (function.updateLive live first) live := by
      have others := (step.2.updates rest).1
      rw [List.foldl_cons] at unchanged
      rwa [unchanged] at others
    have same : function.updateLive live first = live := below.antisymm step.1
    intro place member
    rcases List.mem_cons.mp member with rfl | later
    · exact same
    · rw [List.foldl_cons, same] at unchanged
      exact ih unchanged place later

def Stable (function : Function) (live : LiveMap) : Prop :=
  ∀ place instr, function.code[place]? = some instr → live.before place = function.liveBefore live place instr

theorem Growing.stable (growing : function.Growing live)
    (unchanged : function.sweepLive live = live) : function.Stable live := by
  intro place instr found
  have bound : place < function.code.size := (Array.getElem?_eq_some_iff.mp found).1
  have same := growing.update_eq unchanged place (by simpa using bound)
  have updated := before_updateLive growing.size found place
  rwa [same, if_pos rfl] at updated

theorem sweeps_induction
    (step : ∀ live place, live.size = function.code.size + 1 → kept live → kept (function.updateLive live place))
    (size : live.size = function.code.size + 1) (holds : kept live) :
    (function.sweepLive live).size = function.code.size + 1 ∧ kept (function.sweepLive live) := by
  simp only [sweepLive]
  generalize (List.range function.code.size).reverse = places
  induction places generalizing live with
  | nil => exact ⟨size, holds⟩
  | cons place rest ih => exact ih ((size_updateLive live place).trans size) (step live place size holds)

theorem liveMap_induction (start : kept function.noneLive)
    (step : ∀ live place, live.size = function.code.size + 1 → kept live → kept (function.updateLive live place)) :
    kept function.liveMap := by
  have size : function.noneLive.size = function.code.size + 1 := by simp [noneLive]
  simp only [liveMap]
  generalize function.noneLive = live at start size ⊢
  generalize function.code.size * function.reads.length + 1 = bound
  induction bound generalizing live with
  | zero => exact start
  | succ bound ih =>
    simp only [liveWithin]
    split
    · exact start
    · have swept := sweeps_induction step size start
      exact ih _ swept.2 swept.1

structure Inside (function : Function) (live : LiveMap) : Prop where
  reads : ∀ place register : Nat, register ∈ live.before place → register ∈ function.reads
  places : ∀ place register : Nat, register ∈ live.before place → place < function.code.size

theorem Inside.updateLive (size : live.size = function.code.size + 1)
    (inside : function.Inside live) (place : Nat) : function.Inside (function.updateLive live place) := by
  cases found : function.code[place]? with
  | none => simpa [Function.updateLive, found] using inside
  | some instr =>
    have placeBound : place < function.code.size := (Array.getElem?_eq_some_iff.mp found).1
    constructor <;> intro other register member <;> rw [before_updateLive size found] at member <;>
      split at member
    · rcases mem_liveBefore.mp member with ⟨used, _⟩ | ⟨⟨next, _, live⟩, _⟩
      · exact List.mem_flatMap.mpr ⟨instr, Array.mem_toList_iff.mpr (Array.mem_of_getElem? found), used⟩
      · exact inside.reads next register live
    · exact inside.reads other register member
    · omega
    · exact inside.places other register member

def livePairs (function : Function) (live : LiveMap) : Finset (Nat × Nat) :=
  (Finset.range function.code.size ×ˢ function.reads.toFinset).filter fun pair => pair.2 ∈ live.before pair.1

theorem card_livePairs_le (function : Function) (live : LiveMap) :
    (function.livePairs live).card ≤ function.code.size * function.reads.length := by
  calc (function.livePairs live).card
      ≤ (Finset.range function.code.size ×ˢ function.reads.toFinset).card := Finset.card_filter_le _ _
    _ = function.code.size * function.reads.toFinset.card := by simp
    _ ≤ function.code.size * function.reads.length := Nat.mul_le_mul_left _ (List.toFinset_card_le _)

theorem livePairs_ssubset {first second : LiveMap} (below : LiveMap.Below first second)
    (inside : function.Inside second) (different : second ≠ first) :
    function.livePairs first ⊂ function.livePairs second := by
  have added : ∃ place register : Nat, register ∈ second.before place ∧ ¬ register ∈ first.before place := by
    by_contra none
    push Not at none
    exact different (LiveMap.Below.antisymm ⟨below.size.symm, none⟩ below)
  obtain ⟨place, register, member, absent⟩ := added
  rw [Finset.ssubset_iff_of_subset]
  · refine ⟨(place, register), ?_, ?_⟩
    · simp [livePairs, member, inside.places place register member, inside.reads place register member]
    · simp [livePairs, absent]
  · intro pair found
    simp only [livePairs, Finset.mem_filter] at found ⊢
    exact ⟨found.1, below.live pair.1 pair.2 found.2⟩

theorem liveWithin_settles {bound : Nat} (growing : function.Growing live) (inside : function.Inside live)
    (enough : function.code.size * function.reads.length < (function.livePairs live).card + bound) :
    ∃ sweeps, function.liveWithin bound live = function.sweepLive^[sweeps] live ∧
      function.sweepLive (function.liveWithin bound live) = function.liveWithin bound live ∧
      function.Growing (function.liveWithin bound live) := by
  induction bound generalizing live with
  | zero =>
    have few := card_livePairs_le function live
    omega
  | succ bound ih =>
    simp only [liveWithin]
    split
    · rename_i unchanged
      exact ⟨0, rfl, unchanged, growing⟩
    · rename_i changed
      have swept : LiveMap.Below live (function.sweepLive live) ∧ function.Growing (function.sweepLive live) :=
        growing.updates _
      have nextInside : function.Inside (function.sweepLive live) :=
        (sweeps_induction (fun _ place size holds => holds.updateLive size place) growing.size inside).2
      have more := Finset.card_lt_card (livePairs_ssubset swept.1 nextInside changed)
      obtain ⟨sweeps, same, settled⟩ := ih swept.2 nextInside (by omega)
      exact ⟨sweeps + 1, same, settled⟩

theorem not_mem_before_replicate (places place register : Nat) :
    ¬ register ∈ LiveMap.before (Array.replicate places ∅) place := by
  simp only [LiveMap.before, Array.getD_eq_getD_getElem?, Array.getElem?_replicate]
  split <;> exact NatSet.not_mem_empty register

theorem inside_noneLive (function : Function) : function.Inside function.noneLive :=
  ⟨fun place register member => absurd member (not_mem_before_replicate _ place register),
    fun place register member => absurd member (not_mem_before_replicate _ place register)⟩

theorem liveMap_settles (function : Function) :
    ∃ sweeps, function.liveMap = function.sweepLive^[sweeps] function.noneLive ∧
      function.sweepLive function.liveMap = function.liveMap ∧ function.Growing function.liveMap := by
  apply liveWithin_settles
  · exact ⟨by simp [noneLive], fun place _ _ register member => absurd member (not_mem_before_replicate _ place register)⟩
  · exact inside_noneLive function
  · omega

theorem liveMap_stable (function : Function) : function.Stable function.liveMap := by
  obtain ⟨_, _, unchanged, growing⟩ := liveMap_settles function
  exact growing.stable unchanged

namespace Stable

variable {live : LiveMap} (stable : function.Stable live) {place : Nat} {instr : Instr}
  (found : function.code[place]? = some instr)

include stable found

theorem live_of_use (used : register ∈ instr.uses) (nonzero : register ≠ Reg.zero) :
    register ∈ live.before place := by
  rw [stable place instr found]
  exact mem_liveBefore.mpr (Or.inl ⟨used, nonzero⟩)

theorem live_of_successor {next : Nat} (successor : next ∈ function.successors place instr)
    (member : register ∈ live.before next) (kept : instr.def? ≠ some register) :
    register ∈ live.before place := by
  rw [stable place instr found]
  exact mem_liveBefore.mpr (Or.inr ⟨⟨next, successor, member⟩, kept⟩)

end Stable

end Function

end Ir

end FplCompiler
