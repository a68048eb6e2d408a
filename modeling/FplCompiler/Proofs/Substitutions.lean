import FplCompiler.Collection.NatMap
import FplCompiler.Proofs.TypeShapes

/-!
The laws of type arguments: two substitutions in a row are one, a parameter that stands for itself changes nothing, and
what is replaced is gone.
-/

namespace FplCompiler

def Substitution.andThen (first second : Substitution) : Substitution :=
  (first.map fun binding => (binding.1, binding.2.substitute second)) ++ second

theorem Substitution.lookup_andThen (first second : Substitution) (key : Ty) :
    (first.andThen second).lookup key =
      match first.lookup key with
      | some value => some (value.substitute second)
      | none => second.lookup key := by
  induction first with
  | nil => rfl
  | cons binding rest ih =>
    obtain ⟨bound, value⟩ := binding
    simp only [andThen, List.map_cons, List.cons_append, List.lookup_cons]
    cases key == bound with
    | true => rfl
    | false => exact ih

namespace Ty

variable {bindings : Substitution} {head : TypeHead}

theorem takes_substitute {inner : Ty} (idle : head.takes inner.head = false) :
    head.takes (inner.substitute bindings).head = false := by
  cases inner with
  | nullable given =>
    rw [substitute, orNull_eq]
    cases head <;> try cases idle
    split
    case isTrue => rfl
    case isFalse plain => exact Bool.eq_false_iff.mpr plain
  | errorUnion given =>
    rw [substitute, orError_eq]
    cases head <;> try cases idle
    split
    case isTrue => rfl
    case isFalse plain => exact Bool.eq_false_iff.mpr plain
  | primitive kind => exact idle
  | enumeration enum => exact idle
  | _ => cases head <;> cases idle

theorem substitute_rebuild {components : List Ty} (other : head.isParameter = false)
    (fits : head.admits components.length = true) :
    (head.rebuild components).substitute bindings = head.rebuild (components.map (substitute bindings)) := by
  obtain ⟨sameHead, sameComponents⟩ := head_apply fits
  have applied : (head.apply components).substitute bindings = head.rebuild (components.map (substitute bindings)) := by
    rw [substitute_eq bindings (by rw [sameHead, other]), sameHead, sameComponents]
  unfold TypeHead.rebuild
  split
  case h_1 inner =>
    split
    case isTrue => exact applied
    case isFalse idle =>
      have stillIdle : head.takes (inner.substitute bindings).head = false := takes_substitute (Bool.eq_false_iff.mpr idle)
      simp only [List.map_singleton, stillIdle, Bool.false_eq_true, if_false]
  case h_2 => exact applied

theorem admits_map {type : Ty} (change : Ty → Ty) : type.head.admits (type.components.map change).length = true := by
  rw [List.length_map]
  exact type.admits_components

theorem substitute_substitute (first second : Substitution) (type : Ty) :
    (type.substitute first).substitute second = type.substitute (first.andThen second) := by
  induction type using byComponents with
  | step type ih =>
    cases parameter : type.head.isParameter with
    | true =>
      cases type <;> try cases parameter
      rw [substitute, substitute, Substitution.lookup_andThen]
      cases first.lookup _ with
      | none => rfl
      | some value => rfl
    | false =>
      rw [substitute_eq first parameter, substitute_rebuild parameter (admits_map _),
        substitute_eq _ parameter, List.map_map]
      congr 1
      exact List.map_congr_left ih

theorem substituteAll_substituteAll (first second : Substitution) (types : List Ty) :
    substituteAll second (substituteAll first types) = substituteAll (first.andThen second) types := by
  simp only [substituteAll_eq, List.map_map]
  exact List.map_congr_left fun type _ => substitute_substitute first second type

theorem substitute_self (identity : ∀ binding ∈ bindings, binding.2 = binding.1) (type : Ty) (normal : type.Normal) :
    type.substitute bindings = type := by
  induction type using byComponents with
  | step type ih =>
    cases parameter : type.head.isParameter with
    | true =>
      cases type <;> try cases parameter
      rw [substitute]
      cases found : bindings.lookup _ with
      | none => rfl
      | some value => exact identity (_, value) (mem_of_lookup found)
    | false =>
      rw [substitute_eq _ parameter]
      have same : type.components.map (substitute bindings) = type.components := by
        refine (List.map_congr_left fun part below => ?_).trans (List.map_id _)
        exact ih part below fun inner inside => normal inner (mem_parts_of_component below inside)
      rw [same, rebuild_components (normal type type.self_mem_parts)]

theorem mem_parts_rebuild {components : List Ty} {part : Ty} (fits : head.admits components.length = true)
    (inside : part ∈ (head.rebuild components).parts) :
    part.head = head ∨ ∃ below ∈ components, part ∈ below.parts := by
  obtain ⟨sameHead, sameComponents⟩ := head_apply fits
  have applied : part ∈ (head.apply components).parts → part.head = head ∨ ∃ below ∈ components, part ∈ below.parts := by
    intro inside
    rcases mem_parts.mp inside with rfl | below
    · exact .inl sameHead
    · exact .inr (sameComponents ▸ below)
  unfold TypeHead.rebuild at inside
  split at inside
  case h_1 inner =>
    split at inside
    case isTrue => exact applied inside
    case isFalse => exact .inr ⟨inner, List.mem_singleton_self _, inside⟩
  case h_2 => exact applied inside

theorem substitute_removes {bound : Ty} (parameter : bound.head.isParameter = true)
    (isBound : (bindings.lookup bound).isSome)
    (gone : ∀ key value, bindings.lookup key = some value → bound ∉ value.parts) (type : Ty) :
    bound ∉ (type.substitute bindings).parts := by
  induction type using byComponents with
  | step type ih =>
    cases own : type.head.isParameter with
    | true =>
      cases type <;> try cases own
      rw [substitute]
      cases found : bindings.lookup _ with
      | none =>
        intro inside
        obtain rfl : bound = .parameter _ _ _ := List.mem_singleton.mp inside
        rw [found] at isBound
        cases isBound
      | some value => exact gone _ value found
    | false =>
      rw [substitute_eq _ own]
      intro inside
      rcases mem_parts_rebuild (admits_map _) inside with same | ⟨below, image, inside⟩
      · rw [same, own] at parameter
        cases parameter
      · obtain ⟨part, component, rfl⟩ := List.mem_map.mp image
        exact ih part component inside

/-- Substitution composes: two substitutions in a row are the second after the first, parameters that stand for themselves
leave a type in normal form as it is, and a parameter that is bound, and that no bound type mentions, is mentioned no
longer. -/
theorem substitution_composes (type : Ty) (first second : Substitution) :
    (type.substitute first).substitute second = type.substitute (first.andThen second) ∧
    ((∀ binding ∈ first, binding.2 = binding.1) → type.Normal → type.substitute first = type) ∧
    ((∀ key value bound, first.lookup key = some value → bound.head.isParameter = true → (first.lookup bound).isSome →
        bound ∉ value.parts) →
      ∀ bound : Ty, bound.head.isParameter = true → (first.lookup bound).isSome →
        bound ∉ (type.substitute first).parts) := by
  refine ⟨substitute_substitute first second type, fun identity normal => substitute_self identity type normal, ?_⟩
  intro apart bound parameter isBound
  exact substitute_removes parameter isBound (fun key value found => apart key value bound found parameter isBound) type

def sampleT : Ty :=
  .parameter "T" 0 0

def sampleU : Ty :=
  .parameter "U" 0 1

def sampleFunction : Ty :=
  .function [.nullable sampleT, .errorUnion sampleT] (.object ⟨0, "Pair", ["T", "U"]⟩ [sampleT, sampleU]) false

/-- The union `T?` is made anew as `U?`, and then left out where `U` is a number. -/
theorem substitution_composes_sampleFunction :
    (sampleFunction.substitute [(sampleT, .nullable sampleU)]).substitute [(sampleU, .int)] =
        sampleFunction.substitute (Substitution.andThen [(sampleT, .nullable sampleU)] [(sampleU, .int)]) ∧
      sampleFunction.substitute [(sampleT, sampleT)] = sampleFunction ∧
      sampleT ∉ (sampleFunction.substitute [(sampleT, .nullable sampleU)]).parts := by
  refine ⟨(substitution_composes _ _ _).1, ?_, ?_⟩
  · refine (substitution_composes sampleFunction [(sampleT, sampleT)] []).2.1 ?_ ?_
    · intro binding member
      rw [List.mem_singleton.mp member]
    · unfold Normal
      decide
  · refine (substitution_composes sampleFunction [(sampleT, .nullable sampleU)] []).2.2 ?_ sampleT rfl rfl
    intro key value bound found _ isBound
    have isU : value = .nullable sampleU := by
      rw [List.lookup_cons] at found
      split at found
      · exact (Option.some.inj found).symm
      · cases found
    have isT : bound = sampleT := by
      rw [List.lookup_cons] at isBound
      split at isBound
      case h_1 same => exact eq_of_beq same
      case h_2 => cases isBound
    rw [isU, isT]
    decide

end Ty

end FplCompiler
