import FplCompiler.Analysis.Declare
import FplCompiler.Proofs.CheckStep
import Mathlib.Algebra.Group.Nat.Defs
import Mathlib.Data.List.Forall2

/-!
Places of fields and globals. Values are put into an area one after the other, each at the next multiple of the alignment
of its type, so that the bytes of two values never meet. Words of 32 bits give the same places as long as they can count
the bytes of the area.
-/

namespace FplCompiler

theorem Ty.alignment_power (type : Ty) : ∃ exponent, type.alignment = 2 ^ exponent := by
  fun_induction Ty.alignment type with
  | case1 element _ ih => exact ih
  | case2 => exact ⟨0, rfl⟩
  | case3 => exact ⟨0, rfl⟩
  | case4 => exact ⟨1, rfl⟩
  | case5 => exact ⟨2, rfl⟩

def Ty.wordSize : Ty → UInt32
  | .bool | .char => 1
  | .unit | .error | .nothing => 0
  | .inlineArray element count => element.wordSize * UInt32.ofNat count
  | _ => 4

theorem Ty.wordSize_eq (type : Ty) : type.wordSize = UInt32.ofNat type.size := by
  fun_induction Ty.wordSize type with
  | case6 element count ih => rw [Ty.size, ih, UInt32.ofNat_mul]
  | case7 type => rw [Ty.size] <;> first | rfl | assumption
  | _ => rfl

namespace Area

theorem nextOffset_rounds (area : Area) (exponent : Nat) :
    2 ^ exponent ∣ area.nextOffset (2 ^ exponent) ∧ area.used ≤ area.nextOffset (2 ^ exponent) ∧
      area.nextOffset (2 ^ exponent) < area.used + 2 ^ exponent := by
  have positive := Nat.two_pow_pos exponent
  have remainder := Nat.mod_lt (area.used + 2 ^ exponent - 1) positive
  rw [nextOffset, Nat.and_two_pow_sub_one_eq_mod]
  exact ⟨Nat.dvd_sub_mod _, by omega, by omega⟩

def reserveFor (area : Area) (type : Ty) : Nat × Area :=
  area.reserve type.size type.alignment

/-- Room for values of the given types, in this order. -/
def reserveAll (area : Area) : List Ty → List Nat × Area
  | [] => ([], area)
  | type :: rest =>
    let others := (area.reserveFor type).2.reserveAll rest
    ((area.reserveFor type).1 :: others.1, others.2)

theorem reserveFor_rounds (area : Area) (type : Ty) :
    type.alignment ∣ (area.reserveFor type).1 ∧ area.used ≤ (area.reserveFor type).1 ∧
      (area.reserveFor type).1 < area.used + type.alignment := by
  obtain ⟨exponent, power⟩ := type.alignment_power
  rw [reserveFor, reserve, power, Nat.max_eq_left (Nat.two_pow_pos exponent)]
  exact area.nextOffset_rounds exponent

/-- Where the first value may begin, and the end of each value. -/
def ends (area : Area) (values : List (Ty × Nat)) : List Nat :=
  area.used :: values.map fun value => value.2 + value.1.size

structure Laid (area : Area) (types : List Ty) (offsets : List Nat) (last : Area) : Prop where
  count : offsets.length = types.length
  aligned : ∀ value ∈ types.zip offsets, value.1.alignment ∣ value.2
  ordered : (types.zip offsets).Pairwise fun first second => first.2 + first.1.size ≤ second.2
  padded : List.Forall₂ (fun before value => before ≤ value.2 ∧ value.2 < before + value.1.alignment)
    (area.ends (types.zip offsets)).dropLast (types.zip offsets)
  last : (area.ends (types.zip offsets)).getLast? = some last.used

theorem reserveAll_within (area : Area) (types : List Ty) :
    area.used ≤ (area.reserveAll types).2.used ∧
      ∀ offset ∈ (area.reserveAll types).1, area.used ≤ offset ∧ offset ≤ (area.reserveAll types).2.used := by
  induction types generalizing area with
  | nil => simp [reserveAll]
  | cons type rest ih =>
    have first := (area.reserveFor_rounds type).2.1
    have behind : (area.reserveFor type).1 ≤ (area.reserveFor type).2.used := Nat.le_add_right _ _
    obtain ⟨longer, others⟩ := ih (area.reserveFor type).2
    have start : area.used ≤ (area.reserveFor type).2.used := Nat.le_trans first behind
    refine ⟨Nat.le_trans start longer, List.forall_mem_cons.mpr ⟨⟨first, Nat.le_trans behind longer⟩, ?_⟩⟩
    exact fun offset member => ⟨Nat.le_trans start (others offset member).1, (others offset member).2⟩

theorem laid_reserveAll (area : Area) (types : List Ty) :
    Laid area types (area.reserveAll types).1 (area.reserveAll types).2 := by
  induction types generalizing area with
  | nil => exact ⟨rfl, by simp, .nil, .nil, rfl⟩
  | cons type rest ih =>
    have others := ih (area.reserveFor type).2
    have rounds := area.reserveFor_rounds type
    have behind := ((area.reserveFor type).2.reserveAll_within rest).2
    exact ⟨congrArg (· + 1) others.count, List.forall_mem_cons.mpr ⟨rounds.1, others.aligned⟩,
      .cons (fun value member => (behind value.2 (List.of_mem_zip member).2).1) others.ordered,
      .cons rounds.2 others.padded, others.last⟩

theorem reserveAll_append (area : Area) (types more : List Ty) :
    area.reserveAll (types ++ more) = ((area.reserveAll types).1 ++ ((area.reserveAll types).2.reserveAll more).1,
      ((area.reserveAll types).2.reserveAll more).2) := by
  induction types generalizing area with
  | nil => rfl
  | cons type rest ih => simp only [List.cons_append, reserveAll, ih]

/-! The same in words, where the bits below the alignment are masked out. -/

def reserveWord (used size alignment : UInt32) : UInt32 × UInt32 :=
  let offset := (used + alignment - 1) &&& ~~~(alignment - 1)
  (offset, offset + size)

def reserveWords (used : UInt32) : List Ty → List UInt32 × UInt32
  | [] => ([], used)
  | type :: rest =>
    let first := reserveWord used type.wordSize (UInt32.ofNat type.alignment)
    let others := reserveWords first.2 rest
    (first.1 :: others.1, others.2)

theorem and_not_word (word mask : UInt32) : word &&& ~~~mask = word - (word &&& mask) := by
  have disjoint : (word.toBitVec &&& ~~~mask.toBitVec) &&& (word.toBitVec &&& mask.toBitVec) = 0 := by
    ext index
    simp +contextual
  rw [UInt32.eq_sub_iff_add_eq, ← UInt32.toBitVec_inj, UInt32.toBitVec_add, UInt32.toBitVec_and, UInt32.toBitVec_not,
    UInt32.toBitVec_and, BitVec.add_eq_or_of_and_eq_zero _ _ disjoint]
  ext index
  simp [← Bool.and_or_distrib_left]

theorem reserveWord_eq (area : Area) (type : Ty) :
    reserveWord (UInt32.ofNat area.used) type.wordSize (UInt32.ofNat type.alignment) =
      (UInt32.ofNat (area.reserveFor type).1, UInt32.ofNat (area.reserveFor type).2.used) := by
  obtain ⟨exponent, power⟩ := type.alignment_power
  have positive : 1 ≤ type.alignment := power ▸ Nat.two_pow_pos exponent
  have offset : UInt32.ofNat (area.nextOffset type.alignment) =
      (UInt32.ofNat area.used + UInt32.ofNat type.alignment - 1) &&& ~~~(UInt32.ofNat type.alignment - 1) := by
    rw [and_not_word, nextOffset, UInt32.ofNat_sub Nat.and_le_left, UInt32.ofNat_and, UInt32.ofNat_sub positive,
      UInt32.ofNat_sub (by omega), UInt32.ofNat_add]
    rfl
  simp only [reserveWord, reserveFor, reserve, Nat.max_eq_left positive, UInt32.ofNat_add, offset, type.wordSize_eq]

/-- Words count modulo their limit. -/
theorem reserveWords_eq (area : Area) (types : List Ty) :
    reserveWords (UInt32.ofNat area.used) types =
      ((area.reserveAll types).1.map UInt32.ofNat, UInt32.ofNat (area.reserveAll types).2.used) := by
  induction types generalizing area with
  | nil => rfl
  | cons type rest ih => simp only [reserveWords, reserveWord_eq, ih, reserveAll, List.map_cons]

theorem reserveWords_toNat {area : Area} {types : List Ty} (small : (area.reserveAll types).2.used < UInt32.size) :
    (reserveWords (UInt32.ofNat area.used) types).1.map UInt32.toNat = (area.reserveAll types).1 ∧
      (reserveWords (UInt32.ofNat area.used) types).2.toNat = (area.reserveAll types).2.used := by
  rw [area.reserveWords_eq, List.map_map]
  refine ⟨(List.map_congr_left fun offset member => ?_).trans (List.map_id _), UInt32.toNat_ofNat_of_lt small⟩
  exact UInt32.toNat_ofNat_of_lt (Nat.lt_of_le_of_lt ((area.reserveAll_within types).2 offset member).2 small)

end Area

namespace Analysis

open Check

def reserveGlobals (types : List Ty) : Check (List Nat) :=
  types.mapM reserveGlobal

theorem reserveGlobals_apply (types : List Ty) (state : State) :
    reserveGlobals types state = ((state.globals.reserveAll types).1,
      { state with globals := (state.globals.reserveAll types).2 }) := by
  induction types generalizing state with
  | nil => rfl
  | cons type rest ih =>
    rw [reserveGlobals, List.mapM_cons, bind_apply, bind_apply, ← reserveGlobals, ih]
    rfl

structure NewField where
  name : String
  span : Span
  type : Ty
  isMutable : Bool

def NewField.symbol (field : NewField) (cls : ClassId) (offset : Nat) : Symbol :=
  ⟨field.name, field.span, field.type, field.isMutable,
    match field.type with
    | .inlineArray _ _ => .inlineField cls (Int32.ofNat offset)
    | _ => .field (some cls) (Int32.ofNat offset)⟩

def addFields (found : FoundClass) (fields : List NewField) : Check (List SymbolId) :=
  fields.mapM fun field => addField found field.name field.span field.type field.isMutable

def classLayout (found : FoundClass) (state : State) : Area :=
  (state.table.classDef found.ref.id).layout

variable {found : FoundClass} {state : State}

theorem addField_apply (field : NewField) (declared : found.ref.id < state.table.classes.size) :
    ∃ later, addField found field.name field.span field.type field.isMutable state = (state.table.symbols.size, later) ∧
      later.table.symbols = state.table.symbols.push
        (field.symbol found.ref.id ((classLayout found state).reserveFor field.type).1) ∧
      classLayout found later = ((classLayout found state).reserveFor field.type).2 ∧
      later.table.classes.size = state.table.classes.size := by
  let reserved := (classLayout found state).reserveFor field.type
  let laid : State :=
    { state with table := state.table.modifyClass found.ref.id fun cls => { cls with layout := reserved.2 } }
  let made := defineIn found.scope (field.symbol found.ref.id reserved.1) laid
  let later : State :=
    { made.2 with table := made.2.table.modifyClass found.ref.id fun cls =>
        { cls with members := (field.name, made.1) :: cls.members, fields := cls.fields ++ [made.1] } }
  have defined := defineIn_declares found.scope (field.symbol found.ref.id reserved.1) laid
  have classes : made.2.table.classes = laid.table.classes := (congrArg Declarations.classes defined.2.table).trans rfl
  refine ⟨later, Prod.ext defined.1 rfl, congrArg Declarations.symbols defined.2.table, ?_, ?_⟩
  · simp [later, classLayout, Declarations.classDef, Declarations.modifyClass, classes, laid, declared, reserved,
      Array.getElem_modify]
  · simp [later, Declarations.modifyClass, classes, laid]

theorem addFields_apply (fields : List NewField) (declared : found.ref.id < state.table.classes.size) :
    ∃ later, addFields found fields state = (List.range' state.table.symbols.size fields.length, later) ∧
      later.table.symbols.toList = state.table.symbols.toList ++ List.zipWith
        (fun field => field.symbol found.ref.id) fields
        ((classLayout found state).reserveAll (fields.map NewField.type)).1 ∧
      classLayout found later = ((classLayout found state).reserveAll (fields.map NewField.type)).2 := by
  induction fields generalizing state with
  | nil => exact ⟨state, rfl, (List.append_nil _).symm, rfl⟩
  | cons field rest ih =>
    obtain ⟨middle, made, symbols, layout, size⟩ := addField_apply field declared
    obtain ⟨later, others, last, laid⟩ := ih (size.symm ▸ declared)
    refine ⟨later, ?_, ?_, ?_⟩
    · rw [addFields, List.mapM_cons, bind_apply, made, bind_apply, ← addFields, others, symbols, Array.size_push]
      rfl
    · rw [last, symbols, layout]
      simp [Area.reserveAll]
    · rw [laid, layout]
      rfl

/-- Fields and globals lie in the order of their declarations, each at a multiple of its alignment right behind the one
before it, and where a value lies does not depend on what is declared after it. The places are what words count and what
the table of symbols holds. -/
theorem layout_sound (area : Area) (types : List Ty) (small : (area.reserveAll types).2.used < UInt32.size) :
    Area.Laid area types (area.reserveAll types).1 (area.reserveAll types).2 ∧
    (∀ more, (area.reserveAll types).1 <+: (area.reserveAll (types ++ more)).1) ∧
    ((Area.reserveWords (UInt32.ofNat area.used) types).1.map UInt32.toNat = (area.reserveAll types).1 ∧
      (Area.reserveWords (UInt32.ofNat area.used) types).2.toNat = (area.reserveAll types).2.used) ∧
    (∀ state : State, state.globals = area → reserveGlobals types state =
      ((area.reserveAll types).1, { state with globals := (area.reserveAll types).2 })) ∧
    ∀ (found : FoundClass) (fields : List NewField) (state : State), fields.map NewField.type = types →
      found.ref.id < state.table.classes.size → classLayout found state = area →
      ∃ later, addFields found fields state = (List.range' state.table.symbols.size fields.length, later) ∧
        later.table.symbols.toList = state.table.symbols.toList ++
          List.zipWith (fun field => field.symbol found.ref.id) fields (area.reserveAll types).1 ∧
        classLayout found later = (area.reserveAll types).2 := by
  refine ⟨area.laid_reserveAll types, fun more => ?_, Area.reserveWords_toNat small, ?_, ?_⟩
  · rw [area.reserveAll_append]
    exact List.prefix_append _ _
  · rintro state rfl
    exact reserveGlobals_apply types state
  · rintro found fields state rfl declared rfl
    exact addFields_apply fields declared

theorem layout_sound_mixed :
    (Area.empty.reserveAll [.bool, .int, .inlineArray .char 3, .unit, .real]).2.used < UInt32.size ∧
    (Area.empty.reserveAll [.bool, .int, .inlineArray .char 3, .unit, .real]).1 = [0, 4, 8, 11, 12] ∧
    Area.Laid .empty [.bool, .int, .inlineArray .char 3, .unit, .real] [0, 4, 8, 11, 12] ⟨16⟩ :=
  ⟨by decide, by decide, (layout_sound .empty [.bool, .int, .inlineArray .char 3, .unit, .real] (by decide)).1⟩

end Analysis

end FplCompiler
