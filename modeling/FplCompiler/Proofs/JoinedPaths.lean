import FplCompiler.Flow.Facts
import Mathlib.Data.List.Pairwise
import Mathlib.Data.List.Perm.Basic
import Mathlib.Tactic.MkIffOfInductiveProp

/-!
Merging paths is a join. In the order of what is known, merged facts are the least that lie above those of every path
that arrives. What does not depend on the order, the grouping or the repetition of the paths follows from that.
-/

namespace FplCompiler

theorem NatMap.ext_entries {α : Type} {first second : NatMap α}
    (same : ∀ entry, entry ∈ first.entries ↔ entry ∈ second.entries) : first = second := by
  obtain ⟨entries, ascending⟩ := first
  obtain ⟨others, otherAscending⟩ := second
  have distinct {list : List (Nat × α)} (ascending : list.Pairwise fun first second => first.1 < second.1) :
      list.Nodup :=
    ascending.imp fun less same => Nat.ne_of_lt less (congrArg Prod.fst same)
  have permuted : entries.Perm others :=
    (List.perm_ext_iff_of_nodup (distinct ascending) (distinct otherAscending)).mpr same
  have equal : entries = others :=
    permuted.eq_of_pairwise (fun _ _ _ _ less more => absurd (Nat.lt_trans less more) (Nat.lt_irrefl _)) ascending
      otherAscending
  subst equal
  rfl

namespace Facts

variable {τ : Type} {paths : List (Facts τ)}

/-- What the operations of the analysis can make, from nothing known. -/
inductive Built [DecidableEq τ] : Facts τ → Prop
  | start : Built start
  | declareUnset {facts : Facts τ} (symbol : Nat) (built : facts.Built) : Built (facts.declareUnset symbol)
  | markSet {facts : Facts τ} (symbol : Nat) (built : facts.Built) : Built (facts.markSet symbol)
  | free {facts : Facts τ} (symbol : Nat) (built : facts.Built) : Built (facts.free symbol)
  | reassign {facts : Facts τ} (symbol : Nat) (built : facts.Built) : Built (facts.reassign symbol)
  | narrow {facts : Facts τ} (symbol : Nat) (type : τ) (built : facts.Built) : Built (facts.narrow symbol type)
  | widen {facts : Facts τ} (symbol : Nat) (built : facts.Built) : Built (facts.widen symbol)
  | setUnreachable {facts : Facts τ} (built : facts.Built) : Built facts.setUnreachable
  | merge {paths : List (Facts τ)} (built : ∀ path ∈ paths, path.Built) : Built (merge paths)

/-- The second facts know less: fewer variables are surely unset or narrowed, more may be unset or freed. -/
@[mk_iff]
structure KnowsLess (first second : Facts τ) : Prop where
  unset : ∀ symbol ∈ second.unset, symbol ∈ first.unset
  maybeUnset : ∀ symbol ∈ first.maybeUnset, symbol ∈ second.maybeUnset
  narrowed : ∀ entry ∈ second.narrowed.entries, entry ∈ first.narrowed.entries
  freed : ∀ symbol ∈ first.freed, symbol ∈ second.freed

theorem KnowsLess.refl (facts : Facts τ) : facts.KnowsLess facts :=
  ⟨fun _ => id, fun _ => id, fun _ => id, fun _ => id⟩

theorem KnowsLess.antisymm {first second : Facts τ} (less : first.KnowsLess second) (more : second.KnowsLess first)
    (arrive : first.unreachable = second.unreachable) : first = second := by
  have unset : first.unset = second.unset := NatSet.ext fun symbol => ⟨more.unset symbol, less.unset symbol⟩
  have maybeUnset : first.maybeUnset = second.maybeUnset :=
    NatSet.ext fun symbol => ⟨less.maybeUnset symbol, more.maybeUnset symbol⟩
  have narrowed : first.narrowed = second.narrowed :=
    NatMap.ext_entries fun entry => ⟨more.narrowed entry, less.narrowed entry⟩
  have freed : first.freed = second.freed := NatSet.ext fun symbol => ⟨less.freed symbol, more.freed symbol⟩
  cases first
  congr

theorem mem_foldl_inter (part : Facts τ → NatSet) {start : NatSet} {symbol : Nat} :
    symbol ∈ paths.foldl (fun set path => set.inter (part path)) start ↔
      symbol ∈ start ∧ ∀ path ∈ paths, symbol ∈ part path := by
  induction paths generalizing start with
  | nil => simp
  | cons path rest ih => simp [ih, and_assoc]

def arriving (paths : List (Facts τ)) : List (Facts τ) :=
  paths.filter (!·.unreachable)

@[simp]
theorem mem_arriving {path : Facts τ} :
    path ∈ arriving paths ↔ path ∈ paths ∧ path.unreachable = false := by
  simp [arriving]

variable [DecidableEq τ] {paths others : List (Facts τ)} {facts : Facts τ}

theorem merge_unreachable (paths : List (Facts τ)) : (merge paths).unreachable = (arriving paths).isEmpty := by
  unfold merge arriving
  split <;> simp_all [nowhere]

theorem merge_nowhere (none : arriving paths = []) : merge paths = nowhere := by
  unfold arriving at none
  simp [merge, none]

/-- What lies above merged facts lies above those of each path that arrives, and the other way round. -/
theorem merge_knowsLess_iff (some : arriving paths ≠ []) {above : Facts τ} :
    (merge paths).KnowsLess above ↔ ∀ path ∈ arriving paths, path.KnowsLess above := by
  have found (map : NatMap τ) (symbol : Nat) (type : τ) : map.get? symbol = .some type ↔ (symbol, type) ∈ map.entries :=
    ⟨NatMap.mem_of_get?, NatMap.get?_of_mem⟩
  unfold merge
  unfold arriving at some ⊢
  split
  next none => exact absurd none some
  next first rest same =>
    simp only [knowsLess_iff, NatSet.mem_foldl_union, mem_foldl_inter, NatMap.filter]
    grind

/-- Paths merge to the same facts if the same lies above them. -/
theorem merge_congr (none : arriving paths = [] ↔ arriving others = [])
    (same : ∀ above : Facts τ, (∀ path ∈ arriving paths, path.KnowsLess above) ↔
      ∀ path ∈ arriving others, path.KnowsLess above) : merge paths = merge others := by
  by_cases empty : arriving paths = []
  · rw [merge_nowhere empty, merge_nowhere (none.mp empty)]
  · have less (above : Facts τ) : (merge paths).KnowsLess above ↔ (merge others).KnowsLess above := by
      rw [merge_knowsLess_iff empty, merge_knowsLess_iff (none.not.mp empty), same]
    refine ((less _).mpr (.refl _)).antisymm ((less _).mp (.refl _)) ?_
    rw [merge_unreachable, merge_unreachable, Bool.eq_iff_iff, List.isEmpty_iff, List.isEmpty_iff, none]

theorem merge_singleton (reached : facts.unreachable = false) : merge [facts] = facts := by
  have arrives : arriving [facts] = [facts] := by simp [arriving, reached]
  have less (above : Facts τ) : (merge [facts]).KnowsLess above ↔ facts.KnowsLess above := by
    rw [merge_knowsLess_iff (by simp [arrives]), arrives, List.forall_mem_singleton]
  refine ((less _).mpr (.refl _)).antisymm ((less _).mp (.refl _)) ?_
  rw [merge_unreachable, arrives, reached, List.isEmpty_cons]

theorem merge_append (xs ys : List (Facts τ)) : merge (xs ++ ys) = merge [merge xs, merge ys] := by
  have apart : arriving (xs ++ ys) = arriving xs ++ arriving ys := List.filter_append ..
  have reached (paths : List (Facts τ)) : (merge paths).unreachable = false ↔ arriving paths ≠ [] := by
    rw [merge_unreachable, List.isEmpty_eq_false_iff]
  -- A merge to which no path arrives does not arrive itself, so that it asks for nothing above, as its paths do.
  have each (paths : List (Facts τ)) (above : Facts τ) :
      ((merge paths).unreachable = false → (merge paths).KnowsLess above) ↔
        ∀ path ∈ arriving paths, path.KnowsLess above := by
    rw [reached]
    by_cases empty : arriving paths = []
    · simp [empty]
    · simp only [ne_eq, empty, not_false_eq_true, forall_const, merge_knowsLess_iff empty]
  refine merge_congr ?_ fun above => ?_
  · simp [arriving, merge_unreachable]
  · rw [apart, List.forall_mem_append, ← each xs, ← each ys]
    simp

theorem Built.unset_maybeUnset (built : facts.Built) :
    ∀ symbol ∈ facts.unset, symbol ∈ facts.maybeUnset := by
  induction built with
  | start => exact fun _ => id
  | declareUnset symbol _ ih =>
    intro other member
    simp only [Facts.declareUnset, NatSet.mem_insert] at member ⊢
    exact member.imp_left (ih other)
  | markSet symbol _ ih =>
    unfold Facts.markSet
    split
    · intro other member
      simp only [NatSet.mem_erase] at member ⊢
      exact member.imp_left (ih other)
    · exact ih
  | narrow symbol type _ ih =>
    intro other member
    simp only [Facts.narrow, NatSet.mem_erase] at member ⊢
    exact member.imp_left (ih other)
  | free _ _ ih | reassign _ _ ih | widen _ _ ih | setUnreachable _ ih => exact ih
  | @merge paths _ ih =>
    unfold Facts.merge
    split
    next => exact fun _ => id
    next first rest same =>
      have arrives : first ∈ arriving paths := by simp [arriving, same]
      intro symbol member
      exact NatSet.mem_foldl_union.mpr
        (.inl (ih first (mem_arriving.mp arrives).1 symbol ((mem_foldl_inter _).mp member).1))

/-- Merging is a join of what is known on the paths. -/
theorem merge_is_join :
    (∀ facts : Facts τ, facts.Built → ∀ symbol ∈ facts.unset, symbol ∈ facts.maybeUnset) ∧
    (∀ xs ys : List (Facts τ), (∀ path, path ∈ xs ↔ path ∈ ys) → merge xs = merge ys) ∧
    (∀ facts : Facts τ, facts.unreachable = false → merge [facts] = facts) ∧
    (∀ (xs ys : List (Facts τ)) (path : Facts τ), path.unreachable = true → merge (xs ++ path :: ys) = merge (xs ++ ys)) ∧
    (∀ xs ys : List (Facts τ), merge (xs ++ ys) = merge [merge xs, merge ys]) ∧
    ∀ paths : List (Facts τ), (∃ path ∈ paths, path.unreachable = false) →
      (merge paths).unreachable = false ∧
      (∀ path ∈ paths, path.unreachable = false → path.KnowsLess (merge paths)) ∧
      ∀ above : Facts τ, (∀ path ∈ paths, path.unreachable = false → path.KnowsLess above) →
        (merge paths).KnowsLess above := by
  refine ⟨fun _ => Built.unset_maybeUnset, fun xs ys same => ?_, fun _ => merge_singleton, fun xs ys path absent => ?_,
    merge_append, fun paths some => ?_⟩
  · have arrives (path : Facts τ) : path ∈ arriving xs ↔ path ∈ arriving ys := by simp [same]
    exact merge_congr (by simp only [List.eq_nil_iff_forall_not_mem, arrives]) (by simp only [arrives, implies_true])
  · have arrives : arriving (xs ++ path :: ys) = arriving (xs ++ ys) := by simp [arriving, absent]
    exact merge_congr (by rw [arrives]) (by simp only [arrives, implies_true])
  · obtain ⟨path, member, reached⟩ := some
    have some : arriving paths ≠ [] := List.ne_nil_of_mem (mem_arriving.mpr ⟨member, reached⟩)
    refine ⟨by rw [merge_unreachable, List.isEmpty_eq_false_iff]; exact some, fun path member here => ?_,
      fun above each => ?_⟩
    · exact (merge_knowsLess_iff some).mp (.refl _) path (mem_arriving.mpr ⟨member, here⟩)
    · exact (merge_knowsLess_iff some).mpr fun path arrives =>
        each path (mem_arriving.mp arrives).1 (mem_arriving.mp arrives).2

end Facts

end FplCompiler
