import FplCompiler.Proofs.Substitutions
import FplCompiler.Type.Store
import Mathlib.Data.List.GetD
import Mathlib.Data.List.Nodup

/-!
The store keeps every type once. The tables and the stored types are kept in step, so that a number stands for one type and
a type has one number. What numbers stand for is made and substituted as the types themselves are.
-/

namespace FplCompiler

namespace StoredType

variable {stored other : StoredType}

def below : StoredType → List Nat
  | .array element | .range element | .vararg element | .inlineArray element _ => [element]
  | .nullable inner | .errorUnion inner => [inner]
  | .function parameters result _ => result :: parameters
  | .object _ arguments => arguments
  | .primitive _ | .parameter _ _ _ | .enumeration _ => []

/-- Whether a union adds something to what is put into it. -/
def isWrapped (get : Nat → StoredType) : StoredType → Bool
  | .nullable inner => (get inner).takesNull
  | .errorUnion inner => (get inner).takesError
  | _ => true

theorem components_type (stored : StoredType) (typeAt : Nat → Ty) :
    (stored.type typeAt).components = stored.below.map typeAt := by
  cases stored <;> rfl

theorem takesNull_type (stored : StoredType) (typeAt : Nat → Ty) :
    (stored.type typeAt).head.takesNull = stored.takesNull := by
  cases stored with
  | primitive kind => cases kind <;> rfl
  | _ => rfl

theorem takesError_type (stored : StoredType) (typeAt : Nat → Ty) :
    (stored.type typeAt).head.takesError = stored.takesError := by
  cases stored with
  | primitive kind => cases kind <;> rfl
  | _ => rfl

theorem type_congr {typeAt laterAt : Nat → Ty} (same : ∀ part ∈ stored.below, laterAt part = typeAt part) :
    stored.type laterAt = stored.type typeAt := by
  cases stored with
  | function parameters result isVararg =>
    obtain ⟨sameResult, sameParameters⟩ := List.forall_mem_cons.mp same
    rw [type, type, sameResult, List.map_congr_left sameParameters]
  | object cls arguments => exact congrArg (Ty.object cls) (List.map_congr_left same)
  | primitive kind => rfl
  | parameter name classId index => rfl
  | enumeration enum => rfl
  | _ => rw [type, type, same _ (List.mem_singleton_self _)]

theorem isWrapped_congr {get laterGet : Nat → StoredType} (same : ∀ part ∈ stored.below, laterGet part = get part) :
    stored.isWrapped laterGet = stored.isWrapped get := by
  cases stored with
  | nullable inner => rw [isWrapped, isWrapped, same inner (List.mem_singleton_self _)]
  | errorUnion inner => rw [isWrapped, isWrapped, same inner (List.mem_singleton_self _)]
  | _ => rfl

theorem isWrapped_type {get : Nat → StoredType} {typeAt : Nat → Ty}
    (stands : ∀ part ∈ stored.below, typeAt part = (get part).type typeAt) :
    (stored.type typeAt).isWrapped = stored.isWrapped get := by
  cases stored with
  | nullable inner =>
    change (typeAt inner).head.takesNull = (get inner).takesNull
    rw [stands inner (List.mem_singleton_self _), takesNull_type]
  | errorUnion inner =>
    change (typeAt inner).head.takesError = (get inner).takesError
    rw [stands inner (List.mem_singleton_self _), takesError_type]
  | function parameters result isVararg => cases parameters <;> rfl
  | object cls arguments => rcases arguments with _ | ⟨first, _ | ⟨second, rest⟩⟩ <;> rfl
  | _ => rfl

theorem map_injective_on {f : Nat → Ty} : ∀ {left right : List Nat},
    (∀ first ∈ left, ∀ second ∈ right, f first = f second → first = second) → left.map f = right.map f → left = right
  | [], [], _, _ => rfl
  | [], _ :: _, _, same => by cases same
  | _ :: _, [], _, same => by cases same
  | first :: left, second :: right, injective, same => by
    obtain ⟨sameFirst, sameRest⟩ := List.cons.inj same
    rw [injective first List.mem_cons_self second List.mem_cons_self sameFirst]
    rw [map_injective_on (fun a inLeft b inRight => injective a (.tail _ inLeft) b (.tail _ inRight)) sameRest]

theorem eq_of_below (sameBelow : stored.below = other.below) {typeAt : Nat → Ty}
    (same : stored.type typeAt = other.type typeAt) : stored = other := by
  cases stored <;> cases other <;> simp_all [type, below]

theorem type_injective_on {typeAt : Nat → Ty}
    (injective : ∀ first ∈ stored.below, ∀ second ∈ other.below, typeAt first = typeAt second → first = second)
    (same : stored.type typeAt = other.type typeAt) : stored = other := by
  refine eq_of_below (map_injective_on injective ?_) same
  rw [← components_type, ← components_type, same]

theorem adds_null (takes : stored.takesNull = true) :
    stored ≠ .primitive .error ∧ stored ≠ .primitive .null ∧ (∀ inner, stored ≠ .nullable inner) ∧
      stored.isValue = false := by
  cases stored with
  | primitive kind => cases kind <;> simp_all [takesNull, isValue]
  | _ => simp_all [takesNull, isValue]

theorem adds_errors (takes : stored.takesError = true) :
    stored ≠ .primitive .error ∧ ∀ inner, stored ≠ .errorUnion inner := by
  cases stored with
  | primitive kind => cases kind <;> simp_all [takesError]
  | _ => simp_all [takesError]

end StoredType

namespace TypeTable

variable {table other : TypeTable}

/-- What is made from the types that the numbers in a key stand for. -/
def build (typeAt : Nat → Ty) : (table : TypeTable) → table.Key → Ty
  | .nullables, inner => Ty.orNull (typeAt inner)
  | .errorUnions, inner => Ty.orError (typeAt inner)
  | table, key => (table.stored key).type typeAt

/-- The table of a stored type, and what it is looked up by there. -/
def entry? : StoredType → Option ((table : TypeTable) × table.Key)
  | .primitive kind => some ⟨.primitives, kind⟩
  | .array element => some ⟨.arrays, element⟩
  | .range element => some ⟨.ranges, element⟩
  | .nullable inner => some ⟨.nullables, inner⟩
  | .errorUnion inner => some ⟨.errorUnions, inner⟩
  | .vararg element => some ⟨.varargs, element⟩
  | .inlineArray element count => some ⟨.inlineArrays, (element, count)⟩
  | .function parameters result isVararg => some ⟨.functions, (parameters, result, isVararg)⟩
  | .object cls arguments => some ⟨.instances, (cls, arguments)⟩
  | .enumeration enum => some ⟨.enums, enum⟩
  | .parameter _ _ _ => none

theorem entry?_stored (table : TypeTable) (key : table.Key) : entry? (table.stored key) = some ⟨table, key⟩ := by
  cases table <;> rfl

theorem stored_injective {first second : table.Key} (same : table.stored first = table.stored second) : first = second := by
  have entries := congrArg entry? same
  rw [entry?_stored, entry?_stored] at entries
  exact eq_of_heq (Sigma.mk.inj (Option.some.inj entries)).2

theorem stored_ne (different : table ≠ other) (key : table.Key) (otherKey : other.Key) :
    table.stored key ≠ other.stored otherKey := by
  intro same
  have entries := congrArg entry? same
  rw [entry?_stored, entry?_stored] at entries
  exact different (Sigma.mk.inj (Option.some.inj entries)).1

theorem stored_ne_parameter (table : TypeTable) (key : table.Key) (name : String) (classId index : Nat) :
    table.stored key ≠ .parameter name classId index := by
  intro same
  have entries := congrArg entry? same
  rw [entry?_stored] at entries
  cases entries

end TypeTable

namespace TypeStore

variable {number : Nat} {store : TypeStore} {types later : List StoredType} {bindings : List (Nat × Nat)}
  {stored : StoredType} {table : TypeTable} {key : table.Key}

theorem lookup_add (store : TypeStore) (table : TypeTable) (key : table.Key) (other : TypeTable) (otherKey : other.Key) :
    ((store.add table key).tables other).lookup otherKey =
      if table.stored key = other.stored otherKey then some store.types.length
      else (store.tables other).lookup otherKey := by
  unfold add
  dsimp only
  split
  case isTrue same =>
    subst same
    dsimp only
    rw [List.lookup_cons]
    by_cases sameKey : otherKey = key
    · simp [sameKey]
    · have different : table.stored key ≠ table.stored otherKey := fun same =>
        sameKey (TypeTable.stored_injective same).symm
      rw [beq_false_of_ne sameKey, if_neg different]
  case isFalse different => rw [if_neg (TypeTable.stored_ne different key otherKey)]

theorem typesOf_prefix (extended : types <+: later) : typesOf types <+: typesOf later := by
  obtain ⟨more, rfl⟩ := extended
  unfold typesOf
  rw [List.foldl_append]
  exact List.foldlRecOn _ _ List.prefix_rfl fun _ extended _ _ => extended.trans (List.prefix_append _ _)

theorem length_typesOf (types : List StoredType) : (typesOf types).length = types.length := by
  have grows : ∀ before : List Ty, (types.foldl addType before).length = before.length + types.length := by
    induction types with
    | nil => intro before; rfl
    | cons stored rest ih =>
      simp only [List.foldl_cons, ih, addType, List.length_append, List.length_cons, List.length_nil]
      omega
  rw [typesOf, grows, List.length_nil, Nat.zero_add]

theorem getD_typesOf (extended : types <+: later) (stored : number < types.length) :
    (typesOf later).getD number .error = (typesOf types).getD number .error := by
  obtain ⟨more, same⟩ := typesOf_prefix extended
  rw [← same, List.getD_append _ _ _ _ (by rwa [length_typesOf])]

theorem typeAt_extends {later : TypeStore} (extended : store.types <+: later.types)
    (stored : number < store.types.length) : later.typeAt number = store.typeAt number :=
  getD_typesOf extended stored

theorem typeAt_eq (found : store.types[number]? = some stored)
    (smaller : ∀ part ∈ stored.below, part < number) : store.typeAt number = stored.type store.typeAt := by
  obtain ⟨inside, same⟩ := List.getElem?_eq_some_iff.mp found
  have front : store.types.take number ++ [stored] <+: store.types := by
    rw [← same, List.take_append_getElem inside]
    exact List.take_prefix _ _
  have frontLength : (store.types.take number).length = number := List.length_take_of_le (Nat.le_of_lt inside)
  unfold typeAt
  rw [getD_typesOf front (by simp [frontLength]), typesOf, List.foldl_append, List.foldl_cons, List.foldl_nil,
    addType, ← typesOf]
  rw [List.getD_append_right _ _ _ _ (Nat.le_of_eq (by rw [length_typesOf, frontLength])), length_typesOf, frontLength,
    Nat.sub_self]
  refine StoredType.type_congr fun part member => ?_
  exact (getD_typesOf (List.take_prefix _ _) (by rw [frontLength]; exact smaller part member)).symm

structure Sound (store : TypeStore) : Prop where
  ordered : ∀ (number : Nat) (stored : StoredType), store.types[number]? = some stored →
    ∀ part ∈ stored.below, part < number
  wrapped : ∀ stored ∈ store.types, stored.isWrapped store.get = true
  distinct : store.types.Nodup
  tables : ∀ (table : TypeTable) (key : table.Key) (number : Nat),
    (store.tables table).lookup key = some number ↔ store.types[number]? = some (table.stored key)
  owned : ∀ name classId index, .parameter name classId index ∈ store.types → classId < store.classes.length

theorem found_extends (extended : types <+: later)
    (found : types[number]? = some stored) : later[number]? = some stored := by
  obtain ⟨more, rfl⟩ := extended
  rwa [List.getElem?_append_left (List.getElem?_eq_some_iff.mp found).1]

theorem get_of_found (found : store.types[number]? = some stored) : store.get number = stored := by
  rw [get, List.getD_eq_getElem?_getD, found]
  rfl

theorem get_extends {later : TypeStore} (extended : store.types <+: later.types)
    (inside : number < store.types.length) : later.get number = store.get number := by
  have found := List.getElem?_eq_getElem inside
  rw [get_of_found found, get_of_found (found_extends extended found)]

section

variable {store : TypeStore}

theorem Sound.typeAt_eq (sound : store.Sound) (found : store.types[number]? = some stored) :
    store.typeAt number = stored.type store.typeAt :=
  TypeStore.typeAt_eq found (sound.ordered number stored found)

theorem Sound.typeAt_get (sound : store.Sound) (inside : number < store.types.length) :
    store.typeAt number = (store.get number).type store.typeAt := by
  have found := List.getElem?_eq_getElem inside
  rw [get_of_found found, sound.typeAt_eq found]

theorem Sound.typeAt_injective (sound : store.Sound) {first second : Nat} (firstInside : first < store.types.length)
    (secondInside : second < store.types.length) (same : store.typeAt first = store.typeAt second) : first = second := by
  induction first using Nat.strongRecOn generalizing second with
  | ind first ih =>
    have firstFound := List.getElem?_eq_getElem firstInside
    have secondFound := List.getElem?_eq_getElem secondInside
    generalize store.types[first] = firstStored at firstFound
    generalize store.types[second] = secondStored at secondFound
    rw [sound.typeAt_eq firstFound, sound.typeAt_eq secondFound] at same
    have sameStored : firstStored = secondStored := by
      refine StoredType.type_injective_on (fun left leftBelow right rightBelow same => ?_) same
      have leftSmaller := sound.ordered first firstStored firstFound left leftBelow
      have rightSmaller := sound.ordered second secondStored secondFound right rightBelow
      exact ih left leftSmaller (by omega) (by omega) same
    subst sameStored
    exact (List.getElem?_inj firstInside sound.distinct).mp (firstFound.trans secondFound.symm)

theorem found_concat {types : List StoredType} {other : StoredType} :
    (types ++ [stored])[number]? = some other ↔ types[number]? = some other ∨ number = types.length ∧ stored = other := by
  rcases Nat.lt_trichotomy number types.length with smaller | same | larger
  · rw [List.getElem?_append_left smaller]
    exact ⟨.inl, fun either => either.resolve_right fun last => by omega⟩
  · simp [same]
  · rw [List.getElem?_eq_none (by simp; omega), List.getElem?_eq_none (by omega)]
    simp
    omega

/-- Types may be added whose parts are stored, if they are not. -/
theorem Sound.append (sound : store.Sound) {more : List StoredType}
    {tables : (table : TypeTable) → List (table.Key × Nat)} {classes : List ClassRef}
    (fresh : ∀ stored ∈ more, stored ∉ store.types) (apart : more.Nodup)
    (fits : ∀ stored ∈ more, (∀ part ∈ stored.below, part < store.types.length) ∧ stored.isWrapped store.get = true)
    (known : ∀ (table : TypeTable) (key : table.Key) (number : Nat),
      (tables table).lookup key = some number ↔ (store.types ++ more)[number]? = some (table.stored key))
    (owned : ∀ name classId index, .parameter name classId index ∈ more → classId < classes.length)
    (longer : store.classes.length ≤ classes.length) :
    Sound { store with types := store.types ++ more, tables := tables, classes := classes } where
  ordered number stored found part below := by
    rcases Nat.lt_or_ge number store.types.length with smaller | larger
    · rw [List.getElem?_append_left smaller] at found
      exact sound.ordered number stored found part below
    · rw [List.getElem?_append_right larger] at found
      exact Nat.lt_of_lt_of_le ((fits stored (List.mem_of_getElem? found)).1 part below) larger
  wrapped := by
    have same {part : Nat} (inside : part < store.types.length) :
        get { store with types := store.types ++ more, tables := tables, classes := classes } part =
          store.get part := get_extends (List.prefix_append _ _) inside
    refine List.forall_mem_append.mpr ⟨fun stored old => ?_, fun stored new => ?_⟩
    · obtain ⟨number, found⟩ := List.mem_iff_getElem?.mp old
      have inside := (List.getElem?_eq_some_iff.mp found).1
      rw [StoredType.isWrapped_congr fun part below =>
        same (Nat.lt_trans (sound.ordered number stored found part below) inside)]
      exact sound.wrapped stored old
    · rw [StoredType.isWrapped_congr fun part below => same ((fits stored new).1 part below)]
      exact (fits stored new).2
  distinct := List.nodup_append'.mpr ⟨sound.distinct, apart, fun stored old new => fresh stored new old⟩
  tables := known
  owned name classId index member := by
    rcases List.mem_append.mp member with old | new
    · exact Nat.lt_of_lt_of_le (sound.owned name classId index old) longer
    · exact owned name classId index new

theorem Sound.add (sound : store.Sound) (fresh : table.stored key ∉ store.types)
    (smaller : ∀ part ∈ (table.stored key).below, part < store.types.length)
    (wrapped : (table.stored key).isWrapped store.get = true) : (store.add table key).Sound := by
  refine sound.append (List.forall_mem_singleton.mpr fresh) (List.nodup_singleton _)
    (List.forall_mem_singleton.mpr ⟨smaller, wrapped⟩) (fun other otherKey number => ?_)
    (fun name classId index member => ?_) (Nat.le_refl _)
  · rw [found_concat]
    refine Iff.trans (iff_of_eq (congrArg (· = some number) (lookup_add store table key other otherKey))) ?_
    split
    case isTrue same =>
      have notOld : store.types[number]? ≠ some (other.stored otherKey) :=
        fun old => fresh (same ▸ List.mem_of_getElem? old)
      simp only [Option.some.injEq, notOld, false_or, same, and_true]
      exact eq_comm
    case isFalse different => simp only [sound.tables, different, and_false, or_false]
  · exact absurd (List.mem_singleton.mp member).symm (table.stored_ne_parameter key name classId index)

structure Gives (store : TypeStore) (result : Nat × TypeStore) (type : Ty) : Prop where
  sound : result.2.Sound
  extended : store.types <+: result.2.types
  inside : result.1 < result.2.types.length
  type : result.2.typeAt result.1 = type

theorem intern_gives (sound : store.Sound) (smaller : ∀ part ∈ (table.stored key).below, part < store.types.length)
    (wrapped : (table.stored key).isWrapped store.get = true) :
    Gives store (store.intern table key) ((table.stored key).type store.typeAt) := by
  unfold intern
  split
  case h_1 number known =>
    have found := (sound.tables table key number).mp known
    exact ⟨sound, List.prefix_rfl, (List.getElem?_eq_some_iff.mp found).1, sound.typeAt_eq found⟩
  case h_2 unknown =>
    have fresh : table.stored key ∉ store.types := by
      intro member
      obtain ⟨number, found⟩ := List.mem_iff_getElem?.mp member
      rw [(sound.tables table key number).mpr found] at unknown
      cases unknown
    have added := sound.add fresh smaller wrapped
    have extended : store.types <+: (store.add table key).types := List.prefix_append _ _
    refine ⟨added, extended, by simp [TypeStore.add], ?_⟩
    rw [added.typeAt_eq (found_concat.mpr (.inr ⟨rfl, rfl⟩))]
    exact StoredType.type_congr fun part member => typeAt_extends extended (smaller part member)

theorem make_gives (sound : store.Sound) (smaller : ∀ part ∈ (table.stored key).below, part < store.types.length) :
    Gives store (store.make table key) (table.build store.typeAt key) := by
  cases table with
  | nullables =>
    have inside := smaller key (List.mem_singleton_self _)
    change Gives store (if (store.get key).takesNull then _ else _) (store.typeAt key).orNull
    rw [Ty.orNull_eq, sound.typeAt_get inside, StoredType.takesNull_type, ← sound.typeAt_get inside]
    split
    case isTrue takes => exact intern_gives sound smaller takes
    case isFalse => exact ⟨sound, List.prefix_rfl, inside, rfl⟩
  | errorUnions =>
    have inside := smaller key (List.mem_singleton_self _)
    change Gives store (if (store.get key).takesError then _ else _) (store.typeAt key).orError
    rw [Ty.orError_eq, sound.typeAt_get inside, StoredType.takesError_type, ← sound.typeAt_get inside]
    split
    case isTrue takes => exact intern_gives sound smaller takes
    case isFalse => exact ⟨sound, List.prefix_rfl, inside, rfl⟩
  | _ => exact intern_gives sound smaller rfl

theorem newClass_sound (sound : store.Sound) (name : String) (parameters : List String) :
    (store.newClass name parameters).Sound := by
  have added : ∀ stored ∈ parameters.mapIdx (fun index name => StoredType.parameter name store.classes.length index),
      ∃ name index, stored = .parameter name store.classes.length index := by
    intro stored member
    obtain ⟨index, _, same⟩ := List.mem_mapIdx.mp member
    exact ⟨_, index, same.symm⟩
  refine sound.append (fun stored new old => ?_) ?_ (fun stored new => ?_) (fun table key number => ?_)
    (fun parameterName classId index new => ?_) (by simp)
  · obtain ⟨_, _, rfl⟩ := added stored new
    exact Nat.lt_irrefl _ (sound.owned _ _ _ old)
  · refine List.pairwise_iff_getElem.mpr fun first second firstBound secondBound smaller same => ?_
    simp only [List.getElem_mapIdx, StoredType.parameter.injEq] at same
    omega
  · obtain ⟨_, _, rfl⟩ := added stored new
    exact ⟨fun part member => absurd member List.not_mem_nil, rfl⟩
  · refine (sound.tables table key number).trans ⟨found_extends (List.prefix_append _ _), fun found => ?_⟩
    rcases Nat.lt_or_ge number store.types.length with smaller | larger
    · rwa [List.getElem?_append_left smaller] at found
    · rw [List.getElem?_append_right larger] at found
      obtain ⟨_, _, same⟩ := added _ (List.mem_of_getElem? found)
      exact absurd same (table.stored_ne_parameter key _ _ _)
  · obtain ⟨_, _, same⟩ := added _ new
    cases same
    simp

theorem mapNumbers_gives {change : Nat → TypeStore → Nat × TypeStore} {image : Nat → Ty} {numbers : List Nat}
    (each : ∀ number ∈ numbers, ∀ later : TypeStore, later.Sound → store.types <+: later.types →
      Gives later (change number later) (image number)) :
    ∀ {later : TypeStore}, later.Sound → store.types <+: later.types →
      (mapNumbers change numbers later).2.Sound ∧ later.types <+: (mapNumbers change numbers later).2.types ∧
        (∀ number ∈ (mapNumbers change numbers later).1, number < (mapNumbers change numbers later).2.types.length) ∧
        (mapNumbers change numbers later).1.map (mapNumbers change numbers later).2.typeAt = numbers.map image := by
  induction numbers with
  | nil => exact fun sound _ => ⟨sound, List.prefix_rfl, fun _ image => absurd image List.not_mem_nil, rfl⟩
  | cons number rest ih =>
    intro later sound extended
    have first := each number List.mem_cons_self later sound extended
    obtain ⟨restSound, restExtended, restStored, restTypes⟩ :=
      ih (fun other member => each other (.tail _ member)) first.sound (extended.trans first.extended)
    refine ⟨restSound, first.extended.trans restExtended, ?_, ?_⟩
    · intro other member
      rcases List.mem_cons.mp member with rfl | inRest
      · exact Nat.lt_of_lt_of_le first.inside restExtended.length_le
      · exact restStored other inRest
    · have firstType := (typeAt_extends restExtended first.inside).trans first.type
      simp only [mapNumbers, List.map_cons, firstType, restTypes]

def typeBindings (store : TypeStore) (bindings : List (Nat × Nat)) : Substitution :=
  bindings.map fun binding => (store.typeAt binding.1, store.typeAt binding.2)

theorem lookup_typeBindings (sound : store.Sound)
    (keys : ∀ binding ∈ bindings, binding.1 < store.types.length) (inside : number < store.types.length) :
    (store.typeBindings bindings).lookup (store.typeAt number) = (bindings.lookup number).map store.typeAt := by
  induction bindings with
  | nil => rfl
  | cons binding rest ih =>
    obtain ⟨key, value⟩ := binding
    have keyStored := keys _ List.mem_cons_self
    have same : (store.typeAt number == store.typeAt key) = (number == key) := by
      rw [Bool.eq_iff_iff, beq_iff_eq, beq_iff_eq]
      exact ⟨sound.typeAt_injective inside keyStored, congrArg _⟩
    simp only [typeBindings, List.map_cons, List.lookup_cons, same]
    cases number == key with
    | true => rfl
    | false => exact ih fun other member => keys other (.tail _ member)

/-- A type is made from one that was substituted. -/
theorem Gives.wrap {later : TypeStore} {image : Nat × TypeStore} {type : Ty} (gives : Gives later image type)
    (extended : store.types <+: later.types) (table : TypeTable) (key : Nat → table.Key) (build : Ty → Ty)
    (below : ∀ part ∈ (table.stored (key image.1)).below, part < image.2.types.length)
    (builds : table.build image.2.typeAt (key image.1) = build (image.2.typeAt image.1)) :
    Gives store (substituteBelow.wrap table key image) (build type) := by
  have made := make_gives gives.sound below
  refine ⟨made.sound, (extended.trans gives.extended).trans made.extended, made.inside, ?_⟩
  rw [← gives.type, ← builds]
  exact made.type

theorem substituteBelow_gives (sound : store.Sound)
    (bound : ∀ binding ∈ bindings, binding.1 < store.types.length ∧ binding.2 < store.types.length) (limit : Nat) :
    ∀ (number : Nat) (later : TypeStore), number < limit → number < store.types.length → later.Sound →
      store.types <+: later.types → Gives later (substituteBelow bindings limit number later)
        ((store.typeAt number).substitute (store.typeBindings bindings)) := by
  induction limit with
  | zero => omega
  | succ limit ih =>
    intro number later lower inside laterSound extended
    have found := List.getElem?_eq_getElem inside
    generalize store.types[number] = stored at found
    have smaller := sound.ordered number stored found
    have images : ∀ part ∈ stored.below, ∀ later : TypeStore, later.Sound → store.types <+: later.types →
        Gives later (substituteBelow bindings limit part later)
          ((store.typeAt part).substitute (store.typeBindings bindings)) := by
      intro part below later laterSound extended
      have less := smaller part below
      exact ih part later (by omega) (by omega) laterSound extended
    -- a type with one part is made again from what its part became
    have one (part : Nat) (below : part ∈ stored.below) (table : TypeTable) (key : Nat → table.Key) (build : Ty → Ty)
        (single : ∀ image, (table.stored (key image)).below = [image])
        (builds : ∀ (store : TypeStore) image, table.build store.typeAt (key image) = build (store.typeAt image)) :
        Gives later (substituteBelow.wrap table key (substituteBelow bindings limit part later))
          (build ((store.typeAt part).substitute (store.typeBindings bindings))) := by
      have image := images part below later laterSound extended
      refine image.wrap List.prefix_rfl table key build ?_ (builds _ _)
      rw [single]
      exact List.forall_mem_singleton.mpr image.inside
    have unchanged : Gives later (number, later) (store.typeAt number) :=
      ⟨laterSound, List.prefix_rfl, Nat.lt_of_lt_of_le inside extended.length_le, typeAt_extends extended inside⟩
    have stands := sound.typeAt_eq found
    rw [substituteBelow, get_of_found (found_extends extended found)]
    cases stored with
    | parameter name classId index =>
      have image := lookup_typeBindings sound (fun binding member => (bound binding member).1) inside
      rw [stands] at image unchanged
      rw [stands, StoredType.type, Ty.substitute, ← StoredType.type, image]
      cases known : bindings.lookup number with
      | none => exact unchanged
      | some value =>
        have valueInside := (bound (number, value) (mem_of_lookup known)).2
        exact ⟨laterSound, List.prefix_rfl, Nat.lt_of_lt_of_le valueInside extended.length_le,
          typeAt_extends extended valueInside⟩
    | primitive kind =>
      rw [stands] at unchanged ⊢
      exact unchanged
    | enumeration enum =>
      rw [stands] at unchanged ⊢
      exact unchanged
    | array element => exact stands ▸ one element (.head _) .arrays id .array (fun _ => rfl) fun _ _ => rfl
    | range element => exact stands ▸ one element (.head _) .ranges id .range (fun _ => rfl) fun _ _ => rfl
    | nullable inner => exact stands ▸ one inner (.head _) .nullables id .orNull (fun _ => rfl) fun _ _ => rfl
    | errorUnion inner => exact stands ▸ one inner (.head _) .errorUnions id .orError (fun _ => rfl) fun _ _ => rfl
    | vararg element => exact stands ▸ one element (.head _) .varargs id .vararg (fun _ => rfl) fun _ _ => rfl
    | inlineArray element count =>
      exact stands ▸ one element (.head _) .inlineArrays (·, count) (.inlineArray · count) (fun _ => rfl) fun _ _ => rfl
    | function parameters result isVararg =>
      obtain ⟨firstSound, firstExtended, firstInside, firstTypes⟩ := mapNumbers_gives
        (fun part member => images part (.tail _ member)) laterSound extended
      have image := images result List.mem_cons_self _ firstSound (extended.trans firstExtended)
      have kept := List.map_congr_left fun part member => typeAt_extends image.extended (firstInside part member)
      rw [stands, StoredType.type, Ty.substitute, Ty.substituteAll_eq, List.map_map]
      refine image.wrap firstExtended .functions (_, ·, isVararg) (.function _ · isVararg) ?_ ?_
      · refine List.forall_mem_cons.mpr ⟨image.inside, fun part member => ?_⟩
        exact Nat.lt_of_lt_of_le (firstInside part member) image.extended.length_le
      · exact congrArg (Ty.function · _ isVararg) (kept.trans firstTypes)
    | object cls arguments =>
      obtain ⟨allSound, allExtended, allInside, allTypes⟩ := mapNumbers_gives images laterSound extended
      have made : Gives _ (TypeStore.make _ .instances (cls, _)) _ := make_gives allSound allInside
      rw [stands, StoredType.type, Ty.substitute, Ty.substituteAll_eq, List.map_map]
      refine ⟨made.sound, allExtended.trans made.extended, made.inside, made.type.trans ?_⟩
      exact congrArg (Ty.object cls) allTypes

end

/-- A use of the store. The types of all tables are made alike, and type parameters come with their class. -/
inductive Operation where
  | make (table : TypeTable) (key : table.Key)
  | newClass (name : String) (parameters : List String)
  | newEnum (name : String)
  | substitute (bindings : List (Nat × Nat)) (number : Nat)

/-- Whether all numbers are stored. -/
def Operation.isValid (store : TypeStore) : Operation → Bool
  | .make table key => (table.stored key).below.all fun number => number < store.types.length
  | .newClass _ _ | .newEnum _ => true
  | .substitute bindings number =>
    number < store.types.length &&
      bindings.all fun binding => binding.1 < store.types.length && binding.2 < store.types.length

def Operation.run (store : TypeStore) : Operation → TypeStore
  | .make table key => (store.make table key).2
  | .newClass name parameters => store.newClass name parameters
  | .newEnum name => store.newEnum name
  | .substitute bindings number => (store.substitute bindings number).2

inductive Reached : TypeStore → Prop
  | new : Reached .new
  | run {store : TypeStore} {operation : Operation} :
      Reached store → operation.isValid store = true → Reached (operation.run store)

section

variable {store : TypeStore}

theorem Sound.normal (sound : store.Sound) (inside : number < store.types.length) : (store.typeAt number).Normal := by
  induction number using Nat.strongRecOn with
  | ind number ih =>
    have found := List.getElem?_eq_getElem inside
    generalize store.types[number] = stored at found
    have smaller := sound.ordered number stored found
    intro part member
    rcases Ty.mem_parts.mp member with rfl | ⟨component, isComponent, member⟩
    · have stands := fun part below => sound.typeAt_get (Nat.lt_trans (smaller part below) inside)
      rw [sound.typeAt_eq found, StoredType.isWrapped_type stands]
      exact sound.wrapped stored (List.mem_of_getElem? found)
    · rw [sound.typeAt_eq found, StoredType.components_type] at isComponent
      obtain ⟨lower, below, rfl⟩ := List.mem_map.mp isComponent
      exact ih lower (smaller lower below) (Nat.lt_trans (smaller lower below) inside) part member

theorem substitute_gives (sound : store.Sound)
    (bound : ∀ binding ∈ bindings, binding.1 < store.types.length ∧ binding.2 < store.types.length)
    (inside : number < store.types.length) :
    Gives store (store.substitute bindings number) ((store.typeAt number).substitute (store.typeBindings bindings)) := by
  unfold substitute
  split
  case isTrue empty =>
    rw [List.isEmpty_iff.mp empty]
    refine ⟨sound, List.prefix_rfl, inside, ?_⟩
    exact (Ty.substitute_self (fun _ member => absurd member List.not_mem_nil) _ (sound.normal inside)).symm
  case isFalse =>
    exact substituteBelow_gives sound bound (number + 1) number store (Nat.lt_succ_self _) inside sound List.prefix_rfl

theorem below_of_isValid (valid : (Operation.make table key).isValid store = true) :
    ∀ part ∈ (table.stored key).below, part < store.types.length := by
  simpa only [Operation.isValid, List.all_eq_true, decide_eq_true_eq] using valid

theorem run_sound (sound : store.Sound) {operation : Operation} (valid : operation.isValid store = true) :
    (operation.run store).Sound ∧ store.types <+: (operation.run store).types := by
  cases operation with
  | make table key =>
    have made := make_gives sound (below_of_isValid valid)
    exact ⟨made.sound, made.extended⟩
  | newClass name parameters => exact ⟨newClass_sound sound name parameters, List.prefix_append _ _⟩
  | newEnum name =>
    exact ⟨⟨sound.ordered, sound.wrapped, sound.distinct, sound.tables, sound.owned⟩, List.prefix_rfl⟩
  | substitute bindings number =>
    simp only [Operation.isValid, Bool.and_eq_true, List.all_eq_true, decide_eq_true_eq] at valid
    have substituted := substitute_gives sound valid.2 valid.1
    exact ⟨substituted.sound, substituted.extended⟩

theorem new_sound : TypeStore.new.Sound :=
  List.foldlRecOn _ _ ⟨by simp, by simp, List.nodup_nil, by simp, by simp⟩ fun _ sound kind _ =>
    (intern_gives sound (fun _ part => absurd part List.not_mem_nil) rfl).sound

theorem Reached.sound (reached : store.Reached) : store.Sound := by
  induction reached with
  | new => exact new_sound
  | run _ valid ih => exact (run_sound ih valid).1

/-- Every type is stored once and in normal form, and stays under its number: numbers of equal types are equal, each table
gives the numbers of its types, the types below a type have smaller numbers than the type itself, no union adds nothing, no
operation changes what is stored, and what is made or substituted by numbers is what the numbers stand for, made or
substituted. -/
theorem types_stored_once (reached : store.Reached) :
    (∀ first second, first < store.types.length → second < store.types.length →
      store.types[first]? = store.types[second]? ∨ store.typeAt first = store.typeAt second → first = second) ∧
    (∀ (table : TypeTable) (key : table.Key) (number : Nat),
      (store.tables table).lookup key = some number ↔ store.types[number]? = some (table.stored key)) ∧
    (∀ (number : Nat) (stored : StoredType), store.types[number]? = some stored →
      (∀ part ∈ stored.below, part < number) ∧ store.typeAt number = stored.type store.typeAt) ∧
    (∀ inner, .nullable inner ∈ store.types → store.get inner ≠ .primitive .error ∧ store.get inner ≠ .primitive .null ∧
      (∀ given, store.get inner ≠ .nullable given) ∧ (store.get inner).isValue = false) ∧
    (∀ inner, .errorUnion inner ∈ store.types → store.get inner ≠ .primitive .error ∧
      ∀ given, store.get inner ≠ .errorUnion given) ∧
    (∀ operation : Operation, operation.isValid store = true → ∀ number < store.types.length,
      (operation.run store).types[number]? = store.types[number]? ∧
        (operation.run store).typeAt number = store.typeAt number) ∧
    (∀ (table : TypeTable) (key : table.Key), (Operation.make table key).isValid store = true →
      (store.make table key).2.typeAt (store.make table key).1 = table.build store.typeAt key) ∧
    ∀ bindings number, (Operation.substitute bindings number).isValid store = true →
      (store.substitute bindings number).2.typeAt (store.substitute bindings number).1 =
        (store.typeAt number).substitute (store.typeBindings bindings) := by
  have sound := reached.sound
  refine ⟨?_, sound.tables, ?_, ?_, ?_, ?_, ?_, ?_⟩
  · rintro first second firstInside secondInside (sameStored | sameType)
    · exact (List.getElem?_inj firstInside sound.distinct).mp sameStored
    · exact sound.typeAt_injective firstInside secondInside sameType
  · exact fun number stored found => ⟨sound.ordered number stored found, sound.typeAt_eq found⟩
  · exact fun inner member => StoredType.adds_null (sound.wrapped _ member)
  · exact fun inner member => StoredType.adds_errors (sound.wrapped _ member)
  · intro operation valid number inside
    have extended := (run_sound sound valid).2
    have found := List.getElem?_eq_getElem inside
    exact ⟨(found_extends extended found).trans found.symm, typeAt_extends extended inside⟩
  · exact fun table key valid => (make_gives sound (below_of_isValid valid)).type
  · intro bindings number valid
    simp only [Operation.isValid, Bool.and_eq_true, List.all_eq_true, decide_eq_true_eq] at valid
    exact (substitute_gives sound valid.2 valid.1).type

end

/-- The class `Box<T>`, and the type of functions from `Array<T>` to `Range<T?>` with a number for `T`. -/
def sampleRun : List Operation :=
  [.newClass "Box" ["T"], .make .arrays (10 : Nat), .make .nullables (10 : Nat), .make .ranges (12 : Nat),
    .make .functions ([11], 13, false), .substitute [(10, 4)] 14]

def areValid : TypeStore → List Operation → Bool
  | _, [] => true
  | store, operation :: rest => operation.isValid store && areValid (operation.run store) rest

theorem Reached.foldl (reached : store.Reached) {operations : List Operation}
    (valid : areValid store operations = true) : (operations.foldl Operation.run store).Reached := by
  induction operations generalizing store with
  | nil => exact reached
  | cons operation rest ih =>
    obtain ⟨first, others⟩ := Bool.and_eq_true_iff.mp valid
    exact ih (.run reached first) others

def sampleStore : TypeStore :=
  sampleRun.foldl Operation.run .new

/-- The types of the parameters are stored before that of the result, where the union is left out. -/
theorem types_stored_once_sampleStore :
    sampleStore.Reached ∧
      sampleStore.types.drop 15 = [.array 4, .range 4, .function [15] 16 false] ∧
      sampleStore.typeAt 17 = .function [.array .int] (.range .int) false ∧
      (∀ first second, first < 18 → second < 18 → sampleStore.typeAt first = sampleStore.typeAt second → first = second) ∧
      (sampleStore.make .nullables (15 : Nat)).2.typeAt (sampleStore.make .nullables (15 : Nat)).1 =
        .nullable (.array .int) := by
  have reached : sampleStore.Reached := Reached.new.foldl (by decide)
  obtain ⟨once, _, _, _, _, _, made, _⟩ := types_stored_once reached
  refine ⟨reached, by decide, by decide, fun first second low high same => once first second low high (.inr same), ?_⟩
  rw [made .nullables (15 : Nat) (by decide)]
  decide

end TypeStore

end FplCompiler
