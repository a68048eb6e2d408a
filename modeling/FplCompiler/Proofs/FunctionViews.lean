import FplCompiler.Declaration.Table
import FplCompiler.Proofs.Substitutions

/-!
A function seen through type arguments, and seen again through more of them. Its types are those of one view through both;
the recorded type arguments are laid over each other, and so tell what became of a parameter only where the second ones
leave alone what the first gave it.
-/

namespace FplCompiler

namespace Substitution

theorem lookup_cons_eq (bound value key : Ty) (rest : Substitution) :
    List.lookup key ((bound, value) :: rest) = if key = bound then some value else rest.lookup key := by
  by_cases same : key = bound
  · simp [same]
  · have differs : (key == bound) = false := by simpa using same
    rw [List.lookup_cons, differs, if_neg same]

theorem lookup_replaced (bindings : Substitution) (key value other : Ty) :
    (bindings.map fun binding => if binding.1 = key then (key, value) else binding).lookup other =
      if other = key then (bindings.lookup key).map fun _ => value else bindings.lookup other := by
  induction bindings with
  | nil => simp
  | cons binding rest ih =>
    obtain ⟨bound, given⟩ := binding
    by_cases here : bound = key
    · subst here
      by_cases same : other = bound <;> simp [lookup_cons_eq, ih, same]
    · by_cases same : other = key
      · subst same
        simp [lookup_cons_eq, ih, here, Ne.symm here]
      · simp [lookup_cons_eq, ih, here, same]

theorem lookup_bind (bindings : Substitution) (key value other : Ty) :
    (bindings.bind key value).lookup other = if other = key then some value else bindings.lookup other := by
  unfold bind
  split
  case isTrue bound =>
    obtain ⟨given, found⟩ := Option.isSome_iff_exists.mp bound
    rw [lookup_replaced, found, Option.map_some]
  case isFalse absent =>
    rw [List.lookup_append, lookup_cons_eq]
    by_cases same : other = key
    · rw [same, Option.not_isSome_iff_eq_none.mp absent]
      rfl
    · simp [same]

theorem lookup_extend (first second : Substitution) (single : (second.map Prod.fst).Nodup) (key : Ty) :
    (first.extend second).lookup key = (second.lookup key).or (first.lookup key) := by
  unfold extend
  induction second generalizing first with
  | nil => rfl
  | cons binding rest ih =>
    obtain ⟨bound, value⟩ := binding
    obtain ⟨new, others⟩ := List.nodup_cons.mp single
    rw [List.foldl_cons, ih _ others, lookup_bind, lookup_cons_eq]
    by_cases same : key = bound
    · have absent : rest.lookup bound = none := by
        refine List.lookup_eq_none_iff.mpr fun later member => ?_
        have apart : bound ≠ later.1 := fun same => new (List.mem_map.mpr ⟨later, member, same.symm⟩)
        simpa using apart
      simp [same, absent]
    · simp [same]

end Substitution

namespace Declarations

open Ty

/-- A view of a view has the types of one view through the composed type arguments. What it records of a parameter is what
the parameter became exactly if the second type arguments make of its first value what they give to the parameter itself,
or nothing new if they give it none. -/
theorem mapType_composes (table : Declarations) (id : FunctionId) (first second : Substitution)
    (single : (second.map Prod.fst).Nodup) :
    (table.instantiate id first).mapType second =
        { table.instantiate id (first.andThen second) with bindings := first.extend second } ∧
      ∀ parameter : Ty, parameter.head.isParameter = true →
        (parameter.substitute (first.extend second) = parameter.substitute (first.andThen second) ↔
          ∀ value, first.lookup parameter = some value →
            value.substitute second = (second.lookup parameter).getD value) := by
  refine ⟨?_, fun parameter isParameter => ?_⟩
  · simp only [instantiate, FunctionInstance.mapType, substituteAll_substituteAll, substitute_substitute, Option.map_map,
      Function.comp_def]
  · cases parameter <;> try cases isParameter
    simp only [substitute, Substitution.lookup_extend _ _ single, Substitution.lookup_andThen]
    cases first.lookup _ with
    | none => simp
    | some value => cases second.lookup _ <;> simp [eq_comm]

def readsBack : Declarations where
  symbols := #[⟨"value", .nowhere, sampleT, false, .localVar⟩]
  functions := #[⟨"read", "Pair/read(T)", .nowhere, [0], none, false, .nullable sampleT, some 0, false⟩]

theorem mapType_composes_readsBack :
    ((readsBack.instantiate 0 [(sampleT, .string)]).mapType [(sampleU, .int)]).returnType = .nullable .string ∧
      sampleT.substitute (Substitution.extend [(sampleT, .string)] [(sampleU, .int)]) = .string := by
  have single : ([(sampleU, Ty.int)].map Prod.fst).Nodup := by simp
  obtain ⟨view, recorded⟩ := mapType_composes readsBack 0 [(sampleT, .string)] _ single
  refine ⟨by rfl, ((recorded sampleT rfl).mpr ?_).trans rfl⟩
  intro value found
  cases found
  rfl

/-- `T` stands for `U` first and `U` for `Int` then: the parameter is an `Int`, and `T` is recorded as `U`. -/
theorem recorded_argument_left_behind :
    ((readsBack.instantiate 0 [(sampleT, sampleU)]).mapType [(sampleU, .int)]).parameterTypes = [.int] ∧
      sampleT.substitute ((readsBack.instantiate 0 [(sampleT, sampleU)]).mapType [(sampleU, .int)]).bindings = sampleU := by
  exact ⟨rfl, rfl⟩

end Declarations

end FplCompiler
