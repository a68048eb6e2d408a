import FplCompiler.Codegen.Loop
import FplCompiler.Collection.NatMap

/-!
Types seen through type arguments. The code of a generic class counts each type parameter as one word, so the room of
a type stays the same exactly when every argument takes one word.
-/

namespace FplCompiler

variable {bindings : Substitution} {element type inner : Ty}

namespace Ty

mutual

def isBuilt : Ty → Bool
  | .nullable inner => isBuilt inner && inner.orNull = .nullable inner
  | .errorUnion inner => isBuilt inner && inner.orError = .errorUnion inner
  | .array element | .range element | .vararg element | .inlineArray element _ => isBuilt element
  | .function parameters result _ => allBuilt parameters && isBuilt result
  | .object _ arguments => allBuilt arguments
  | .primitive kind => kind ≠ .error
  | .parameter _ _ _ | .enumeration _ => true

def allBuilt : List Ty → Bool
  | [] => true
  | type :: rest => isBuilt type && allBuilt rest

end

theorem allBuilt_iff (types : List Ty) : allBuilt types = true ↔ ∀ type ∈ types, type.isBuilt = true := by
  induction types with
  | nil => simp [allBuilt]
  | cons type rest ih => simp [allBuilt, ih]

theorem orNull_cases (type : Ty) : type.orNull = type ∨ type.orNull = .nullable type := by
  unfold orNull
  split
  · exact .inl rfl
  · exact .inl rfl
  · exact .inl rfl
  · split
    · exact .inl rfl
    · exact .inr rfl

theorem orError_cases (type : Ty) : type.orError = type ∨ type.orError = .errorUnion type := by
  unfold orError
  split
  · exact .inl rfl
  · exact .inl rfl
  · exact .inr rfl

theorem isBuilt_orNull (built : type.isBuilt = true) : type.orNull.isBuilt = true := by
  rcases orNull_cases type with same | made
  · rw [same]
    exact built
  · simp [made, isBuilt, built]

theorem isBuilt_orError (built : type.isBuilt = true) : type.orError.isBuilt = true := by
  rcases orError_cases type with same | made
  · rw [same]
    exact built
  · simp [made, isBuilt, built]

mutual

theorem isBuilt_substitute (built : ∀ binding ∈ bindings, binding.2.isBuilt = true) :
    ∀ type : Ty, type.isBuilt = true → (type.substitute bindings).isBuilt = true
  | .array element, own | .range element, own | .vararg element, own | .inlineArray element _, own =>
    isBuilt_substitute built element own
  | .nullable inner, own => by
    simp only [isBuilt, Bool.and_eq_true] at own
    exact isBuilt_orNull (isBuilt_substitute built inner own.1)
  | .errorUnion inner, own => by
    simp only [isBuilt, Bool.and_eq_true] at own
    exact isBuilt_orError (isBuilt_substitute built inner own.1)
  | .function parameters result _, own => by
    simp only [isBuilt, Bool.and_eq_true] at own
    simp [substitute, isBuilt, allBuilt_substitute built parameters own.1, isBuilt_substitute built result own.2]
  | .object _ arguments, own => allBuilt_substitute built arguments own
  | .primitive _, own => own
  | .enumeration _, _ => rfl
  | .parameter name classId index, _ => by
    rw [substitute]
    cases found : bindings.lookup (.parameter name classId index) with
    | none => rfl
    | some value => exact built (.parameter name classId index, value) (mem_of_lookup found)

theorem allBuilt_substitute (built : ∀ binding ∈ bindings, binding.2.isBuilt = true) :
    ∀ types : List Ty, allBuilt types = true → allBuilt (substituteAll bindings types) = true
  | [], _ => rfl
  | type :: rest, own => by
    simp only [allBuilt, Bool.and_eq_true] at own
    simp [substituteAll, allBuilt, isBuilt_substitute built type own.1, allBuilt_substitute built rest own.2]

end

def isWord (type : Ty) : Bool :=
  type.size = 4 && type.alignment = 4

def Words (bindings : Substitution) : Prop :=
  ∀ binding ∈ bindings, binding.2.isWord = true

theorem isWord_of_lookup (words : Words bindings) {key value : Ty}
    (found : bindings.lookup key = some value) : value.isWord = true :=
  words (key, value) (mem_of_lookup found)

theorem eq_error_of_substitute (words : Words bindings)
    (built : type.isBuilt = true) (seen : type.substitute bindings = .error) : type = .error := by
  induction type using Ty.rec (motive_2 := fun _ => True) with
  | primitive kind => exact seen
  | nullable inner ih =>
    simp only [isBuilt, Bool.and_eq_true] at built
    rw [substitute] at seen
    rcases orNull_cases (inner.substitute bindings) with same | made
    · rw [same] at seen
      rw [ih built.1 seen] at built
      cases built.2
    · rw [made] at seen
      cases seen
  | errorUnion inner ih =>
    simp only [isBuilt, Bool.and_eq_true] at built
    rw [substitute] at seen
    rcases orError_cases (inner.substitute bindings) with same | made
    · rw [same] at seen
      rw [ih built.1 seen] at built
      cases built.2
    · rw [made] at seen
      cases seen
  | parameter name classId index =>
    rw [substitute] at seen
    cases found : bindings.lookup (.parameter name classId index) with
    | none =>
      rw [found] at seen
      cases seen
    | some value =>
      have word := isWord_of_lookup words found
      rw [found, Option.getD_some] at seen
      rw [seen] at word
      cases word
  | nil | cons => trivial
  | _ => cases seen

theorem orError_union (proper : type ≠ .error) : ∃ inner, type.orError = .errorUnion inner := by
  cases type with
  | errorUnion inner => exact ⟨inner, rfl⟩
  | primitive kind => cases kind <;> first | exact ⟨_, rfl⟩ | exact absurd rfl proper
  | _ => exact ⟨_, rfl⟩

theorem substitute_errorUnion (words : Words bindings) (built : (Ty.errorUnion inner).isBuilt = true) :
    ∃ union, (Ty.errorUnion inner).substitute bindings = .errorUnion union := by
  simp only [isBuilt, Bool.and_eq_true] at built
  refine orError_union fun seen => ?_
  rw [eq_error_of_substitute words built.1 seen] at built
  cases built.2

theorem isWord_substitute_nullable (words : Words bindings)
    (built : (Ty.nullable inner).isBuilt = true) : ((Ty.nullable inner).substitute bindings).isWord = true := by
  have parts := built
  simp only [isBuilt, Bool.and_eq_true, decide_eq_true_eq] at parts
  obtain ⟨inside, made⟩ := parts
  rw [substitute]
  cases inner with
  | primitive kind => cases kind <;> first | rfl | cases made
  | nullable _ => cases made
  | enumeration _ => cases made
  | errorUnion inner =>
    obtain ⟨union, same⟩ := substitute_errorUnion words inside
    rw [same]
    rfl
  | parameter name classId index =>
    rw [substitute]
    cases found : bindings.lookup (.parameter name classId index) with
    | none => rfl
    | some value =>
      have word := isWord_of_lookup words found
      rw [Option.getD_some]
      rcases orNull_cases value with same | union
      · rw [same]
        exact word
      · rw [union]
        rfl
  | _ => rfl

theorem isWord_iff : type.isWord = true ↔ type.size = 4 ∧ type.alignment = 4 := by
  simp [isWord]

theorem substitute_room (words : Words bindings) (built : type.isBuilt = true) :
    (type.substitute bindings).size = type.size ∧ (type.substitute bindings).alignment = type.alignment := by
  induction type using Ty.rec (motive_2 := fun _ => True) with
  | nullable inner _ => exact isWord_iff.mp (isWord_substitute_nullable words built)
  | errorUnion inner _ =>
    obtain ⟨union, same⟩ := substitute_errorUnion words built
    rw [same]
    exact ⟨rfl, rfl⟩
  | inlineArray element count ih =>
    obtain ⟨size, alignment⟩ := ih built
    rw [substitute]
    simp only [Ty.size, Ty.alignment, size, alignment, and_self]
  | parameter name classId index =>
    rw [substitute]
    cases found : bindings.lookup (.parameter name classId index) with
    | none => exact ⟨rfl, rfl⟩
    | some value => exact isWord_iff.mp (isWord_of_lookup words found)
  | nil | cons => trivial
  | _ => exact ⟨rfl, rfl⟩

theorem element_substitute (bindings : Substitution) (elements : type.element? = some element) :
    (type.substitute bindings).element? = some (element.substitute bindings) := by
  cases type with
  | array _ | range _ | vararg _ | inlineArray _ _ =>
    cases elements
    rfl
  | primitive kind =>
    cases kind with
    | string =>
      cases elements
      rfl
    | _ => cases elements
  | _ => cases elements

theorem isBuilt_element (built : type.isBuilt = true) (elements : type.element? = some element) :
    element.isBuilt = true := by
  cases type with
  | array _ | range _ | vararg _ | inlineArray _ _ =>
    cases elements
    exact built
  | primitive kind =>
    cases kind with
    | string =>
      cases elements
      rfl
    | _ => cases elements
  | _ => cases elements

end Ty

namespace Codegen

open Ir

/-- Code for a type seen through the bindings reaches for the same bytes as code for the type itself: fields and elements
have the same width, elements the same scale, and new arrays the same room for each element. -/
structure SameAccess (bindings : Substitution) (type : Ty) : Prop where
  size : (type.substitute bindings).size = type.size
  alignment : (type.substitute bindings).alignment = type.alignment
  member : ∀ table object field,
    memberPlace table (type.substitute bindings) object field = memberPlace table type object field
  slot : ∀ element, type.element? = some element → slotSize (type.substitute bindings) = slotSize type
  index : ∀ element, type.element? = some element → ∀ sequence index,
    indexPlace (element.substitute bindings) (type.substitute bindings) sequence index =
      indexPlace element type sequence index
  each : ∀ element, type.element? = some element → ∀ table symbol iterable body,
    forArray table symbol (type.substitute bindings) iterable body = forArray table symbol type iterable body

theorem memSize_eq {first second : Ty} (size : first.size = second.size) : memSize first = memSize second := by
  unfold memSize
  rw [size]

theorem elementCount_substitute (bindings : Substitution) (elements : type.element? = some element) :
    elementCount (type.substitute bindings) = elementCount type := by
  cases type with
  | array _ | range _ | vararg _ | inlineArray _ _ => rfl
  | primitive kind => rfl
  | _ => cases elements

theorem sameAccess_of_words (words : Ty.Words bindings) (built : type.isBuilt = true) : SameAccess bindings type := by
  obtain ⟨size, alignment⟩ := Ty.substitute_room words built
  have elementRoom : ∀ element, type.element? = some element →
      (element.substitute bindings).size = element.size := fun element elements =>
    (Ty.substitute_room words (Ty.isBuilt_element built elements)).1
  have scale : ∀ element, type.element? = some element → elementSize (type.substitute bindings) = elementSize type := by
    intro element elements
    simp only [elementSize, Ty.element_substitute bindings elements, elements, Option.map_some,
      elementRoom element elements]
  refine ⟨size, alignment, fun table object field => ?_, fun element elements => ?_,
    fun element elements sequence index => ?_, fun element elements table symbol iterable body => ?_⟩
  · unfold memberPlace
    rw [memSize_eq size]
  · unfold slotSize
    rw [scale element elements]
  · unfold indexPlace
    rw [memSize_eq (elementRoom element elements), scale element elements, elementCount_substitute bindings elements]
  · unfold forArray
    simp only [Ty.element_substitute bindings elements, elements, memSize_eq (elementRoom element elements),
      elementRoom element elements, elementCount_substitute bindings elements]

end Codegen

theorem lookup_zip_of_mem {keys values : List Ty} (distinct : keys.Nodup) {key value : Ty}
    (member : (key, value) ∈ keys.zip values) : (keys.zip values).lookup key = some value := by
  induction keys generalizing values with
  | nil => cases member
  | cons first keys ih =>
    cases values with
    | nil => cases member
    | cons head values =>
      rw [List.nodup_cons] at distinct
      rw [List.zip_cons_cons, List.mem_cons] at member
      rw [List.zip_cons_cons, List.lookup_cons]
      rcases member with same | later
      · cases same
        simp
      · have other : key ≠ first := fun same => distinct.1 (same ▸ (List.of_mem_zip later).1)
        rw [beq_eq_false_iff_ne.mpr other]
        exact ih distinct.2 later

theorem ClassRef.typeParameters_nodup (cls : ClassRef) : cls.typeParameters.Nodup := by
  rw [List.Nodup, List.pairwise_iff_getElem]
  intro first second firstBound secondBound before same
  simp only [typeParameters, List.getElem_mapIdx, Ty.parameter.injEq] at same
  omega

theorem Codegen.sameAccess_iff_words (cls : ClassRef) (arguments : List Ty) :
    (∀ type : Ty, type.isBuilt = true → SameAccess (Ty.object cls arguments).bindings type) ↔
      Ty.Words (Ty.object cls arguments).bindings := by
  refine ⟨fun fits binding member => ?_, fun words type built => sameAccess_of_words words built⟩
  obtain ⟨key, value⟩ := binding
  have found := lookup_zip_of_mem cls.typeParameters_nodup member
  obtain ⟨name, index, rfl⟩ : ∃ name index, key = .parameter name cls.id index := by
    have inside := (List.of_mem_zip member).1
    simp only [ClassRef.typeParameters, List.mem_mapIdx] at inside
    obtain ⟨index, bound, same⟩ := inside
    exact ⟨_, _, same.symm⟩
  obtain ⟨size, alignment, _⟩ := fits (.parameter name cls.id index) rfl
  have seen : (Ty.parameter name cls.id index).substitute (Ty.object cls arguments).bindings = value := by
    rw [Ty.substitute, show (Ty.object cls arguments).bindings = cls.typeParameters.zip arguments from rfl, found]
    rfl
  rw [seen] at size alignment
  exact Ty.isWord_iff.mpr ⟨size, alignment⟩

end FplCompiler
