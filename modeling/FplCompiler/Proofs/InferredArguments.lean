import FplCompiler.Analysis.Creation
import FplCompiler.Proofs.CheckStep
import FplCompiler.Proofs.Substitutions

/-!
Type arguments that are found from the arguments of a constructor. Each parameter of the class is bound where it is met
first; if no union is lost there, and each parameter is met, then the arguments are accepted as they are.
-/

namespace FplCompiler

namespace Ty

mutual

/-- The type parameters that are met when a type is compared with that of an argument. -/
def met : Ty → List Ty
  | .parameter name classId index => [.parameter name classId index]
  | .array inner | .range inner | .nullable inner | .errorUnion inner => met inner
  | .object _ arguments => allMet arguments
  | _ => []

def allMet : List Ty → List Ty
  | [] => []
  | type :: rest => met type ++ allMet rest

end

/-- No union in a type takes up a union of its own kind: `T?` is not seen through a `T` that may be null itself. -/
def KeepsUnions (bindings : Substitution) (type : Ty) : Prop :=
  ∀ part ∈ type.parts, part.head = .nullable ∨ part.head = .errorUnion →
    ∀ inner ∈ part.components, (inner.substitute bindings).head ≠ part.head

theorem substitute_congr {first second : Substitution} {type : Ty}
    (same : ∀ part ∈ type.parts, part.head.isParameter = true → part.substitute first = part.substitute second) :
    type.substitute first = type.substitute second := by
  induction type using byComponents with
  | step type ih =>
    cases parameter : type.head.isParameter with
    | true => exact same type type.self_mem_parts parameter
    | false =>
      rw [substitute_eq first parameter, substitute_eq second parameter]
      congr 1
      exact List.map_congr_left fun part below => ih part below fun inner inside =>
        same inner (mem_parts_of_component below inside)

end Ty

namespace Analysis

open Ty Check

variable {bindings known : Substitution} {types : List Ty}

/-- What comparing with an argument adds to the bindings: those of the parameters that are met and not bound yet. -/
def Learns (bindings known learned : Substitution) (parameters : List Ty) : Prop :=
  ∀ key, learned.lookup key = (known.lookup key).or (if key ∈ parameters then some (key.substitute bindings) else none)

theorem learns_bindOnce {type : Ty} : Learns bindings known (bindOnce known type (type.substitute bindings)) [type] := by
  intro key
  unfold bindOnce
  split
  case isTrue bound =>
    by_cases same : key = type
    · obtain ⟨value, found⟩ := Option.isSome_iff_exists.mp bound
      simp [same, found]
    · simp [same]
  case isFalse free =>
    rw [List.lookup_append]
    by_cases same : key = type
    · simp [same]
    · have differs : (key == type) = false := by simpa using same
      simp [same, differs]

theorem unify_union {head : TypeHead} (union : head = .nullable ∨ head = .errorUnion) {inner given : Ty}
    (other : given.head ≠ head) :
    unify known (head.apply [inner]) (head.rebuild [given]) = unify known inner given := by
  change unify known _ (if head.takes given.head then head.apply [given] else given) = _
  split <;> rcases union with rfl | rfl <;> first | rfl | (cases given <;> first | rfl | exact absurd rfl other)

theorem learns_unifyAll
    (each : ∀ type ∈ types, ∀ known, Learns bindings known (unify known type (type.substitute bindings)) type.met) :
    Learns bindings known (unifyAll known types (substituteAll bindings types)) (allMet types) := by
  induction types generalizing known with
  | nil => intro key; simp [unifyAll, allMet]
  | cons type rest ih =>
    obtain ⟨first, others⟩ := List.forall_mem_cons.mp each
    intro key
    rw [substituteAll, unifyAll, allMet, ih others key, first known key]
    by_cases here : key ∈ type.met <;> simp [here]

theorem learns_unify {type : Ty} (kept : type.KeepsUnions bindings) :
    ∀ known, Learns bindings known (unify known type (type.substitute bindings)) type.met := by
  induction type using byComponents with
  | step type ih =>
    have below : ∀ part ∈ type.components, ∀ known,
        Learns bindings known (unify known part (part.substitute bindings)) part.met := fun part component =>
      ih part component fun deeper inside => kept deeper (mem_parts_of_component component inside)
    have apart := kept type type.self_mem_parts
    intro known
    cases type with
    | parameter name classId index => exact learns_bindOnce
    | array element => exact below element (by simp [components]) known
    | range element => exact below element (by simp [components]) known
    | nullable inner =>
      rw [substitute_eq bindings rfl]
      exact unify_union (.inl rfl) (apart (.inl rfl) inner (by simp [components])) ▸
        below inner (by simp [components]) known
    | errorUnion inner =>
      rw [substitute_eq bindings rfl]
      exact unify_union (.inr rfl) (apart (.inr rfl) inner (by simp [components])) ▸
        below inner (by simp [components]) known
    | object cls arguments =>
      rw [substitute, unify, if_pos rfl]
      exact learns_unifyAll below
    | _ =>
      intro key
      simp [unify, met]

/-- Parameter types whose type parameters are found from arguments: no union is lost in them, and each parameter that
stands for another type is met somewhere. -/
structure Inferable (bindings : Substitution) (types : List Ty) : Prop where
  kept : ∀ type ∈ types, type.KeepsUnions bindings
  met : ∀ type ∈ types, ∀ part ∈ type.parts, part.head.isParameter = true →
    part ∈ allMet types ∨ part.substitute bindings = part

theorem Inferable.exact (inferable : Inferable bindings types) :
    substituteAll (inferBindings types (substituteAll bindings types)) types = substituteAll bindings types := by
  have learned : Learns bindings [] _ (allMet types) :=
    learns_unifyAll fun type member => learns_unify (inferable.kept type member)
  rw [substituteAll_eq, substituteAll_eq]
  refine List.map_congr_left fun type member => substitute_congr fun part inside parameter => ?_
  have found := learned part
  cases part <;> try cases parameter
  rw [← substituteAll_eq, substitute, inferBindings, found]
  rcases inferable.met type member _ inside rfl with here | free
  · simp [here]
  · split <;> simp [free]

theorem fits_exact {function : FunctionInstance} (fixed : function.isVararg = false)
    (same : function.parameterTypes = types) : function.fits types = true := by
  rw [FunctionInstance.fits, fixed, same]
  simp [FunctionInstance.acceptsEach, List.zip, accepts_self]

theorem coerceEach_exact (arguments : List Typed.Expr) (state : State) :
    coerceEach (arguments.map Typed.Expr.type) arguments state = (arguments, state) := by
  induction arguments with
  | nil => rfl
  | cons argument rest ih =>
    have first : coerce argument.type argument state = (argument, state) := by
      unfold coerce
      rw [if_pos (by simp)]
      rfl
    rw [List.map_cons, coerceEach, Check.bind_apply, first, Check.bind_apply, ih]
    rfl

/-- A generic class that is made without type arguments, from arguments of the types that its constructor has through some
type arguments, is made from these arguments as they are. -/
theorem createObject_infers {cls : ClassRef} {constructor : FunctionId} {state checked : State}
    {arguments : List Typed.Expr}
    {checkArguments : Check (List Typed.Expr)} (bindings : Substitution) (onStack : Bool) (span : Span)
    (isGeneric : cls.parameters ≠ []) (has : (state.table.classDef cls.id).constructor? = some constructor)
    (run : checkArguments state = (arguments, checked))
    (fixed : (checked.table.function constructor).isVararg = false)
    (exact : arguments.map Typed.Expr.type = (checked.table.instantiate constructor bindings).parameterTypes)
    (inferable : Inferable bindings (checked.table.instantiate constructor []).parameterTypes) :
    ∃ inferred, createObject cls cls.typeParameters onStack span checkArguments state =
      node (.createObject cls.id constructor arguments onStack) span (cls.selfType.substitute inferred) checked := by
  let generic := checked.table.instantiate constructor []
  let inferred := inferBindings generic.parameterTypes (arguments.map Typed.Expr.type)
  have types : arguments.map Typed.Expr.type = substituteAll bindings generic.parameterTypes :=
    exact.trans (substituteAll_substituteAll [] bindings _).symm
  have same : (generic.mapType inferred).parameterTypes = arguments.map Typed.Expr.type := by
    change substituteAll (inferBindings _ _) _ = _
    rw [types]
    exact inferable.exact
  have resolved : resolveCall cls.name [generic.mapType inferred] arguments span checked =
      (.ok (generic.mapType inferred, arguments), checked) := by
    have found : resolveOverload [generic.mapType inferred] (arguments.map Typed.Expr.type) =
        .found (generic.mapType inferred) := by
      simp [resolveOverload, fits_exact fixed same]
    have packed : packArguments (generic.mapType inferred) arguments span checked = (arguments, checked) := by
      rw [packArguments, if_neg (by simp [show (generic.mapType inferred).isVararg = false from fixed]), same]
      exact coerceEach_exact arguments checked
    unfold resolveCall
    rw [found]
    dsimp only
    rw [Check.bind_apply, packed]
    rfl
  refine ⟨inferred, ?_⟩
  have infers : (!cls.parameters.isEmpty && decide (cls.typeParameters = cls.typeParameters)) = true := by
    simpa using isGeneric
  have got : getClass cls.id state = (state.table.classDef cls.id, state) := rfl
  unfold createObject
  rw [Check.bind_apply, got]
  rw [has]
  dsimp only
  rw [Check.bind_apply, run, Check.bind_apply, Check.get_apply]
  rw [if_pos infers, Check.bind_apply, resolved]
  rfl

def classT : ClassRef :=
  ⟨0, "C", ["T"]⟩

/-- A class `C<T>` whose constructor takes two values of these types. -/
def taking (first second : Ty) : State where
  sources := .empty
  table := {
    symbols := #[⟨"first", .nowhere, first, false, .localVar⟩, ⟨"second", .nowhere, second, false, .localVar⟩]
    functions := #[⟨"C", "C/new", .nowhere, [0, 1], none, false, .unit, some 0, true⟩]
    classes := #[⟨classT, .nowhere, [], [], .empty, some 0⟩] }

def argumentsOf (first second : Ty) : List Typed.Expr :=
  [.mk (.localVar 2) default first, .mk (.localVar 3) default second]

/-- `T` is found in the first type, and so it does not matter that it is not looked for in an inline array. -/
theorem createObject_infers_inlineArrays :
    let state := taking sampleT (.array (.inlineArray (.nullable sampleT) 2))
    let arguments := argumentsOf .string (.array (.inlineArray (.nullable .string) 2))
    ∃ inferred, createObject classT classT.typeParameters false default (pure arguments) state =
      node (.createObject 0 0 arguments false) default (classT.selfType.substitute inferred) state := by
  refine createObject_infers [(sampleT, .string)] false default (by decide) rfl rfl rfl rfl ⟨?_, ?_⟩
  · unfold KeepsUnions
    decide
  · decide

/-- `T?` is met before `T`, so that `T` is bound to `String` where it stands for `String?`, and the call is rejected. -/
theorem nullable_parameter_rejected :
    let state := taking (.nullable sampleT) sampleT
    let arguments := argumentsOf (.nullable .string) (.nullable .string)
    arguments.map Typed.Expr.type = (state.table.instantiate 0 [(sampleT, .nullable .string)]).parameterTypes ∧
      (createObject classT classT.typeParameters false default (pure arguments) state).1.type = .error := by
  exact ⟨rfl, rfl⟩

end Analysis

end FplCompiler
