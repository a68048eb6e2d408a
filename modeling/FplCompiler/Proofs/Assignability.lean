import FplCompiler.Proofs.TypeShapes

/-!
Which chains of assignments can be made in one step. Assignability looks through the two unions at every depth; only
instances of a generic class can break a chain, since the class seen from inside stands for all its instances.
-/

namespace FplCompiler

namespace Ty

variable {type source : Ty}

theorem accepts_nothing (type : Ty) : type.accepts .nothing = true := by
  unfold accepts
  cases type with
  | primitive kind => cases kind <;> simp
  | _ => simp

theorem accepts_error (type : Ty) : type.accepts .error = true := by
  unfold accepts
  cases type with
  | primitive kind => cases kind <;> simp
  | _ => simp

def withoutErrors : Ty → Ty
  | .errorUnion inner => inner
  | type => type

def isEnumeration : Ty → Bool
  | .enumeration _ => true
  | _ => false

theorem nullable_accepts (inner source : Ty) :
    (Ty.nullable inner).accepts source = true ↔ source = .null ∨ inner.accepts source.withoutNull = true := by
  by_cases same : Ty.nullable inner = source
  · subst same
    simp [accepts_self, withoutNull]
  conv => lhs; unfold accepts
  simp only [same, decide_false]
  cases source with
  | primitive kind => cases kind <;> simp [withoutNull, accepts_error, accepts_nothing]
  | _ => simp [withoutNull]

theorem errorUnion_accepts (inner source : Ty) :
    (Ty.errorUnion inner).accepts source = true ↔ source.isEnumeration = true ∨
        inner.accepts source.withoutErrors = true := by
  by_cases same : Ty.errorUnion inner = source
  · subst same
    simp [accepts_self, withoutErrors]
  conv => lhs; unfold accepts
  simp only [same, decide_false]
  cases source with
  | primitive kind => cases kind <;> simp [withoutErrors, isEnumeration, accepts_error, accepts_nothing]
  | _ => simp [withoutErrors, isEnumeration]

def isPlain : Ty → Bool
  | .nullable _ | .errorUnion _ | .any | .error => false
  | _ => true

theorem not_isPlain (other : type.isPlain = false) :
    type = .any ∨ type = .error ∨ (∃ inner, type = .nullable inner) ∨ ∃ inner, type = .errorUnion inner := by
  unfold isPlain at other
  split at other <;> simp_all

theorem plain_accepts (plain : type.isPlain = true) (accepts : type.accepts source = true) :
    source = type ∨ source = .nothing ∨ source = .error ∨
      ∃ cls arguments given, type = .object cls arguments ∧ source = .object cls given ∧
        sameArguments cls arguments given = true := by
  unfold Ty.accepts at accepts
  rw [Bool.or_eq_true, decide_eq_true_eq] at accepts
  rcases accepts with same | accepts
  · exact .inl same.symm
  split at accepts
  case h_1 => cases plain
  case h_2 => exact .inr (.inr (.inl rfl))
  case h_3 => cases plain
  case h_4 => exact .inr (.inl rfl)
  case h_5 | h_6 | h_7 | h_8 | h_9 | h_10 => cases plain
  case h_12 => cases accepts
  case h_11 =>
    obtain ⟨same, agree⟩ := Bool.and_eq_true_iff.mp accepts
    obtain rfl := of_decide_eq_true same
    exact .inr (.inr (.inr ⟨_, _, _, rfl, rfl, agree⟩))

theorem any_accepts (source : Ty) : Ty.any.accepts source = true := by
  unfold accepts
  cases source with
  | primitive kind => cases kind <;> simp
  | _ => simp

theorem error_accepts (source : Ty) : Ty.error.accepts source = true := by
  unfold accepts
  simp

theorem object_accepts {cls : ClassRef} {arguments given : List Ty} (agree : sameArguments cls arguments given = true) :
    (Ty.object cls arguments).accepts (.object cls given) = true := by
  unfold accepts
  simp [agree]

/-- What is accepted in a union is accepted by itself. The two unions go together, since each may be inside the other. -/
theorem accepts_inner (type : Ty) : ∀ inner : Ty,
    (type.accepts (.nullable inner) = true → type.accepts inner = true) ∧
      (type.accepts (.errorUnion inner) = true → type.accepts inner = true) := by
  induction type using byComponents with
  | step type ih =>
    intro inner
    cases plain : type.isPlain with
    | true =>
      constructor <;> intro accepted <;>
        rcases plain_accepts plain accepted with rfl | same | same | ⟨_, _, _, _, same, _⟩ <;>
          first | cases plain | cases same
    | false =>
      obtain rfl | rfl | ⟨given, rfl⟩ | ⟨given, rfl⟩ := not_isPlain plain
      · exact ⟨fun _ => any_accepts inner, fun _ => any_accepts inner⟩
      · exact ⟨fun _ => error_accepts inner, fun _ => error_accepts inner⟩
      · have strip : ∀ source : Ty, given.accepts source = true → given.accepts source.withoutNull = true := by
          intro source accepted
          cases source with
          | nullable inside => exact (ih given (List.mem_singleton_self _) inside).1 accepted
          | _ => exact accepted
        simp only [nullable_accepts, reduceCtorEq, false_or]
        refine ⟨fun accepted => .inr (strip inner accepted), fun accepted => .inr (strip inner ?_)⟩
        exact (ih given (List.mem_singleton_self _) inner).2 accepted
      · have strip : ∀ source : Ty, given.accepts source = true → given.accepts source.withoutErrors = true := by
          intro source accepted
          cases source with
          | errorUnion inside => exact (ih given (List.mem_singleton_self _) inside).2 accepted
          | _ => exact accepted
        simp only [errorUnion_accepts, isEnumeration, Bool.false_eq_true, false_or]
        refine ⟨fun accepted => .inr (strip inner ?_), fun accepted => .inr (strip inner accepted)⟩
        exact (ih given (List.mem_singleton_self _) inner).1 accepted

theorem accepts_withoutNull (accepts : type.accepts source = true) :
    source = .null ∨ type.withoutNull.accepts source.withoutNull = true := by
  cases type with
  | nullable inner => exact (nullable_accepts inner source).mp accepts
  | _ =>
    cases source with
    | nullable inner => exact .inr ((accepts_inner _ inner).1 accepts)
    | _ => exact .inr accepts

theorem accepts_withoutErrors (accepts : type.accepts source = true) :
    source.isEnumeration = true ∨ type.withoutErrors.accepts source.withoutErrors = true := by
  cases type with
  | errorUnion inner => exact (errorUnion_accepts inner source).mp accepts
  | _ =>
    cases source with
    | errorUnion inner => exact .inr ((accepts_inner _ inner).2 accepts)
    | _ => exact .inr accepts

def core : Ty → Ty
  | .nullable inner | .errorUnion inner => core inner
  | type => type

theorem core_withoutNull (type : Ty) : type.withoutNull.core = type.core := by
  cases type <;> rfl

theorem core_withoutErrors (type : Ty) : type.withoutErrors.core = type.core := by
  cases type <;> rfl

/-- An instance of a class between two others whose arguments disagree. It agrees with both since it is the class seen from
inside, or has fewer arguments. -/
def Bridges (middle first last : Ty) : Prop :=
  ∃ cls arguments before after, middle.core = .object cls arguments ∧ first.core = .object cls before ∧
    last.core = .object cls after ∧ sameArguments cls before after = false ∧
    (arguments = cls.typeParameters ∨ arguments.length < before.length ∧ arguments.length < after.length)

theorem agree_trans : ∀ before arguments after : List Ty, Ty.error ∉ arguments →
    ((before.zip arguments).all fun (a, b) => a.agrees b) = true →
    ((arguments.zip after).all fun (a, b) => a.agrees b) = true →
    ((before.zip after).all fun (a, b) => a.agrees b) = true ∨
      arguments.length < before.length ∧ arguments.length < after.length
  | [], _, _, _, _, _ => .inl rfl
  | _ :: _, _, [], _, _, _ => .inl rfl
  | _ :: _, [], _ :: _, _, _, _ => .inr ⟨Nat.succ_pos _, Nat.succ_pos _⟩
  | a :: before, b :: arguments, c :: after, plain, left, right => by
    simp only [List.zip_cons_cons, List.all_cons, Bool.and_eq_true] at left right ⊢
    rw [List.mem_cons, not_or] at plain
    have first : a.agrees c = true := by
      have notError : ¬ b = .error := fun same => plain.1 same.symm
      have leftAgrees := left.1
      have rightAgrees := right.1
      simp only [agrees, isError, Bool.or_eq_true, decide_eq_true_eq, notError, or_false] at leftAgrees rightAgrees ⊢
      rcases leftAgrees with same | erroneous
      · rw [same]
        simpa [notError] using rightAgrees
      · exact .inl (.inr erroneous)
    rcases agree_trans before arguments after plain.2 left.2 right.2 with rest | shorter
    · exact .inl ⟨first, rest⟩
    · exact .inr ⟨Nat.succ_lt_succ shorter.1, Nat.succ_lt_succ shorter.2⟩

theorem sameArguments_trans {cls : ClassRef} {before arguments after : List Ty} (plain : Ty.error ∉ arguments)
    (left : sameArguments cls before arguments = true) (right : sameArguments cls arguments after = true) :
    sameArguments cls before after = true ∨ arguments = cls.typeParameters ∨
      arguments.length < before.length ∧ arguments.length < after.length := by
  simp only [sameArguments, Bool.or_eq_true, decide_eq_true_eq] at left right ⊢
  rcases left with (isFirst | isMiddle) | left
  · exact .inl (.inl (.inl isFirst))
  · exact .inr (.inl isMiddle.symm)
  rcases right with (isMiddle | isLast) | right
  · exact .inr (.inl isMiddle.symm)
  · exact .inl (.inl (.inr isLast))
  exact (agree_trans before arguments after plain left right).imp .inr .inr

theorem accepts_of_simple {first middle last : Ty} (plain : middle.isPlain = true)
    (noObject : ∀ cls arguments, middle ≠ .object cls arguments)
    (left : first.accepts middle = true) (right : middle.accepts last = true) : first.accepts last = true := by
  rcases plain_accepts plain right with rfl | rfl | rfl | ⟨cls, arguments, _, isObject, _, _⟩
  · exact left
  · exact accepts_nothing first
  · exact accepts_error first
  · exact absurd isObject (noObject cls arguments)

theorem accepts_trans_of_plain {first middle last : Ty} (plain : first.isPlain = true) (noError : Ty.error ∉ middle.parts)
    (left : first.accepts middle = true) (right : middle.accepts last = true) :
    first.accepts last = true ∨ middle.Bridges first last := by
  rcases plain_accepts plain left with rfl | rfl | rfl | ⟨cls, before, arguments, rfl, rfl, agree⟩
  · exact .inl right
  · exact .inl (accepts_of_simple rfl (fun _ _ isObject => by cases isObject) left right)
  · exact absurd (self_mem_parts _) noError
  rcases plain_accepts rfl right with rfl | rfl | rfl | ⟨_, _, after, isObject, rfl, further⟩
  · exact .inl left
  · exact .inl (accepts_nothing _)
  · exact .inl (accepts_error _)
  cases isObject
  have plainArguments : Ty.error ∉ arguments := fun member => noError (mem_parts_of_component member (self_mem_parts _))
  cases same : sameArguments cls before after with
  | true => exact .inl (object_accepts same)
  | false =>
    have stands := (sameArguments_trans plainArguments agree further).resolve_left (by simp [same])
    exact .inr ⟨cls, arguments, before, after, rfl, rfl, rfl, same, stands⟩

theorem accepts_trans (first : Ty) : ∀ middle last : Ty, Ty.error ∉ middle.parts → first.accepts middle = true →
    middle.accepts last = true → first.accepts last = true ∨ middle.Bridges first last := by
  induction first using byComponents with
  | step first ih =>
    intro middle last noError left right
    cases plain : first.isPlain with
    | true => exact accepts_trans_of_plain plain noError left right
    | false =>
      obtain rfl | rfl | ⟨inner, rfl⟩ | ⟨inner, rfl⟩ := not_isPlain plain
      · exact .inl (any_accepts last)
      · exact .inl (error_accepts last)
      · rcases (nullable_accepts inner middle).mp left with rfl | inside
        · exact .inl (accepts_of_simple rfl (fun _ _ isObject => by cases isObject) left right)
        rcases accepts_withoutNull right with rfl | further
        · exact .inl ((nullable_accepts inner _).mpr (.inl rfl))
        have stillNoError : Ty.error ∉ middle.withoutNull.parts := by
          cases middle with
          | nullable given => exact fun inside => noError (mem_parts_of_component (List.mem_singleton_self _) inside)
          | _ => exact noError
        have chain := ih inner (List.mem_singleton_self _) _ _ stillNoError inside further
        unfold Bridges at chain
        rw [core_withoutNull, core_withoutNull] at chain
        exact chain.imp (fun accepted => (nullable_accepts inner last).mpr (.inr accepted)) id
      · rcases (errorUnion_accepts inner middle).mp left with isEnum | inside
        · cases middle <;> try cases isEnum
          exact .inl (accepts_of_simple rfl (fun _ _ isObject => by cases isObject) left right)
        rcases accepts_withoutErrors right with isEnum | further
        · exact .inl ((errorUnion_accepts inner _).mpr (.inl isEnum))
        have stillNoError : Ty.error ∉ middle.withoutErrors.parts := by
          cases middle with
          | errorUnion given => exact fun inside => noError (mem_parts_of_component (List.mem_singleton_self _) inside)
          | _ => exact noError
        have chain := ih inner (List.mem_singleton_self _) _ _ stillNoError inside further
        unfold Bridges at chain
        rw [core_withoutErrors, core_withoutErrors] at chain
        exact chain.imp (fun accepted => (errorUnion_accepts inner last).mpr (.inr accepted)) id

/-- Assignability is a preorder on types without errors, apart from chains between two instances of a class whose arguments
disagree. -/
theorem accepts_preorder :
    (∀ type : Ty, type.accepts type = true) ∧
      ∀ first middle last : Ty, Ty.error ∉ middle.parts → first.accepts middle = true → middle.accepts last = true →
        first.accepts last = true ∨ middle.Bridges first last :=
  ⟨accepts_self, accepts_trans⟩

def sampleBox : ClassRef :=
  ⟨0, "Box", ["T"]⟩

/-- A box of numbers is one also through both unions and the box seen from inside its class. -/
theorem accepts_preorder_numberBox :
    (Ty.nullable (.errorUnion (.object sampleBox [.int]))).accepts (.object sampleBox [.int]) = true := by
  refine (accepts_preorder.2 _ (.errorUnion sampleBox.selfType) _ (by decide) (by decide) (by decide)).resolve_right ?_
  rintro ⟨cls, arguments, before, after, middleCore, firstCore, lastCore, disagree, _⟩
  cases firstCore
  cases lastCore
  exact absurd disagree (by decide)

/-- A box of texts may be stored as a box seen from inside its class, and that as a box of numbers, but a box of texts not
as a box of numbers. -/
theorem boxes_break_chain :
    (Ty.object sampleBox [.int]).accepts sampleBox.selfType = true ∧
      sampleBox.selfType.accepts (.object sampleBox [.string]) = true ∧
      (Ty.object sampleBox [.int]).accepts (.object sampleBox [.string]) = false ∧
      ∀ type ∈ [Ty.object sampleBox [.int], sampleBox.selfType, .object sampleBox [.string]], Ty.error ∉ type.parts := by
  decide

end Ty

end FplCompiler
