import FplCompiler.Type.Relation

/-!
Types as a head and the types right below it. The laws of types look at heads only where a union is made, since a union
depends on what is put into it; all other heads are treated alike.
-/

namespace FplCompiler

theorem Ty.accepts_self (type : Ty) : type.accepts type = true := by
  unfold Ty.accepts
  simp

inductive TypeHead where
  | primitive (kind : Primitive)
  | array | range | nullable | errorUnion | vararg
  | inlineArray (count : Nat)
  | function (isVararg : Bool)
  | object (cls : ClassRef)
  | parameter (name : String) (classId index : Nat)
  | enumeration (enum : EnumRef)
  deriving DecidableEq, Repr

namespace TypeHead

def admits : TypeHead → Nat → Bool
  | .primitive _, count | .parameter _ _ _, count | .enumeration _, count => count = 0
  | .function _, count => 0 < count
  | .object _, _ => true
  | _, count => count = 1

def apply : TypeHead → List Ty → Ty
  | .primitive kind, [] => .primitive kind
  | .array, [element] => .array element
  | .range, [element] => .range element
  | .nullable, [inner] => .nullable inner
  | .errorUnion, [inner] => .errorUnion inner
  | .vararg, [element] => .vararg element
  | .inlineArray count, [element] => .inlineArray element count
  | .function isVararg, result :: parameters => .function parameters result isVararg
  | .object cls, arguments => .object cls arguments
  | .parameter name classId index, [] => .parameter name classId index
  | .enumeration enum, [] => .enumeration enum
  | _, _ => .error

def takesNull : TypeHead → Bool
  | .primitive .error | .primitive .null | .nullable => false
  | .primitive .int | .primitive .real | .primitive .char | .primitive .bool | .primitive .unit | .enumeration _ => false
  | _ => true

def takesError : TypeHead → Bool
  | .primitive .error | .errorUnion => false
  | _ => true

def takes : TypeHead → TypeHead → Bool
  | .nullable, inner => inner.takesNull
  | .errorUnion, inner => inner.takesError
  | _, _ => true

def isParameter : TypeHead → Bool
  | .parameter _ _ _ => true
  | _ => false

end TypeHead

namespace Ty

variable {type part : Ty}

def head : Ty → TypeHead
  | .primitive kind => .primitive kind
  | .array _ => .array
  | .range _ => .range
  | .nullable _ => .nullable
  | .errorUnion _ => .errorUnion
  | .vararg _ => .vararg
  | .inlineArray _ count => .inlineArray count
  | .function _ _ isVararg => .function isVararg
  | .object cls _ => .object cls
  | .parameter name classId index => .parameter name classId index
  | .enumeration enum => .enumeration enum

def components : Ty → List Ty
  | .array element | .range element | .vararg element | .inlineArray element _ => [element]
  | .nullable inner | .errorUnion inner => [inner]
  | .function parameters result _ => result :: parameters
  | .object _ arguments => arguments
  | .primitive _ | .parameter _ _ _ | .enumeration _ => []

theorem apply_components (type : Ty) : type.head.apply type.components = type := by
  cases type <;> rfl

theorem admits_components (type : Ty) : type.head.admits type.components.length = true := by
  cases type <;> simp [head, components, TypeHead.admits]

theorem head_apply {head : TypeHead} {components : List Ty} (fits : head.admits components.length = true) :
    (head.apply components).head = head ∧ (head.apply components).components = components := by
  rcases components with _ | ⟨first, _ | ⟨second, rest⟩⟩ <;> cases head <;>
    simp [TypeHead.admits] at fits <;> exact ⟨rfl, rfl⟩

theorem sizeOf_component (below : part ∈ type.components) : sizeOf part < sizeOf type := by
  cases type <;> simp only [components, List.mem_cons, List.not_mem_nil, or_false] at below
  case function parameters result isVararg =>
    rcases below with rfl | inside
    · simp only [Ty.function.sizeOf_spec]
      omega
    · have smaller := List.sizeOf_lt_of_mem inside
      simp only [Ty.function.sizeOf_spec]
      omega
  case object cls arguments =>
    have smaller := List.sizeOf_lt_of_mem below
    simp only [Ty.object.sizeOf_spec]
    omega
  case inlineArray element count =>
    subst below
    simp only [Ty.inlineArray.sizeOf_spec]
    omega
  all_goals
    subst below
    simp

theorem byComponents {motive : Ty → Prop} (step : ∀ type : Ty, (∀ part ∈ type.components, motive part) → motive type)
    (type : Ty) : motive type :=
  step type fun part _ => byComponents step part
termination_by sizeOf type
decreasing_by exact sizeOf_component ‹_›

mutual

def parts : Ty → List Ty
  | .array element => .array element :: parts element
  | .range element => .range element :: parts element
  | .nullable inner => .nullable inner :: parts inner
  | .errorUnion inner => .errorUnion inner :: parts inner
  | .vararg element => .vararg element :: parts element
  | .inlineArray element count => .inlineArray element count :: parts element
  | .function parameters result isVararg => .function parameters result isVararg :: (parts result ++ allParts parameters)
  | .object cls arguments => .object cls arguments :: allParts arguments
  | .primitive kind => [.primitive kind]
  | .parameter name classId index => [.parameter name classId index]
  | .enumeration enum => [.enumeration enum]

def allParts : List Ty → List Ty
  | [] => []
  | type :: rest => parts type ++ allParts rest

end

theorem allParts_eq (types : List Ty) : allParts types = types.flatMap parts := by
  induction types with
  | nil => rfl
  | cons type rest ih => rw [allParts, ih, List.flatMap_cons]

theorem parts_eq (type : Ty) : type.parts = type :: type.components.flatMap parts := by
  cases type <;> simp [parts, components, allParts_eq]

theorem mem_parts : part ∈ type.parts ↔ part = type ∨ ∃ below ∈ type.components, part ∈ below.parts := by
  rw [parts_eq, List.mem_cons, List.mem_flatMap]

theorem self_mem_parts (type : Ty) : type ∈ type.parts :=
  mem_parts.mpr (.inl rfl)

theorem mem_parts_of_component {below : Ty} (component : below ∈ type.components) (inside : part ∈ below.parts) :
    part ∈ type.parts :=
  mem_parts.mpr (.inr ⟨below, component, inside⟩)

theorem orNull_eq (type : Ty) : type.orNull = if type.head.takesNull then .nullable type else type := by
  cases type with
  | primitive kind => cases kind <;> rfl
  | _ => rfl

theorem orError_eq (type : Ty) : type.orError = if type.head.takesError then .errorUnion type else type := by
  cases type with
  | primitive kind => cases kind <;> rfl
  | _ => rfl

end Ty

def TypeHead.rebuild (head : TypeHead) : List Ty → Ty
  | [inner] => if head.takes inner.head then head.apply [inner] else inner
  | components => head.apply components

namespace Ty

def isWrapped (type : Ty) : Bool :=
  match type.components with
  | [inner] => type.head.takes inner.head
  | _ => true

def Normal (type : Ty) : Prop :=
  ∀ part ∈ type.parts, part.isWrapped = true

theorem rebuild_components {type : Ty} (wrapped : type.isWrapped = true) : type.head.rebuild type.components = type := by
  unfold isWrapped at wrapped
  unfold TypeHead.rebuild
  split
  case h_1 inner only =>
    rw [only] at wrapped
    rw [if_pos wrapped, ← only, apply_components]
  case h_2 => exact type.apply_components

theorem substituteAll_eq (bindings : Substitution) (types : List Ty) :
    substituteAll bindings types = types.map (substitute bindings) := by
  induction types with
  | nil => rfl
  | cons type rest ih => rw [substituteAll, ih, List.map_cons]

theorem substitute_eq (bindings : Substitution) {type : Ty} (other : type.head.isParameter = false) :
    type.substitute bindings = type.head.rebuild (type.components.map (substitute bindings)) := by
  cases type with
  | parameter name classId index => cases other
  | nullable inner => exact orNull_eq _
  | errorUnion inner => exact orError_eq _
  | function parameters result isVararg =>
    rw [substitute, substituteAll_eq]
    cases parameters <;> rfl
  | object cls arguments =>
    rw [substitute, substituteAll_eq]
    rcases arguments with _ | ⟨first, _ | ⟨second, rest⟩⟩ <;> rfl
  | _ => rfl

end Ty

end FplCompiler
