/-! Finite sets of natural numbers. A set is the number that has its members' bits, so that equal sets are equal
values and unions and intersections are single operations. -/

namespace FplCompiler

structure NatSet where
  bits : Nat
  deriving DecidableEq, Repr

namespace NatSet

def empty : NatSet :=
  ⟨0⟩

instance : EmptyCollection NatSet :=
  ⟨empty⟩

def contains (set : NatSet) (element : Nat) : Bool :=
  set.bits.testBit element

instance : Membership Nat NatSet :=
  ⟨fun set element => set.contains element = true⟩

instance (element : Nat) (set : NatSet) : Decidable (element ∈ set) :=
  inferInstanceAs (Decidable (set.contains element = true))

def singleton (element : Nat) : NatSet :=
  ⟨1 <<< element⟩

def union (left right : NatSet) : NatSet :=
  ⟨left.bits ||| right.bits⟩

def inter (left right : NatSet) : NatSet :=
  ⟨left.bits &&& right.bits⟩

def diff (left right : NatSet) : NatSet :=
  ⟨left.bits ^^^ (left.bits &&& right.bits)⟩

def insert (set : NatSet) (element : Nat) : NatSet :=
  set.union (singleton element)

def erase (set : NatSet) (element : Nat) : NatSet :=
  set.diff (singleton element)

def isEmpty (set : NatSet) : Bool :=
  set.bits == 0

def ofList (elements : List Nat) : NatSet :=
  elements.foldl insert empty

def toList (set : NatSet) : List Nat :=
  (List.range (set.bits.log2 + 1)).filter set.contains

def size (set : NatSet) : Nat :=
  set.toList.length

@[ext]
theorem ext {left right : NatSet} (same : ∀ element, element ∈ left ↔ element ∈ right) : left = right := by
  cases left with
  | mk leftBits =>
    cases right with
    | mk rightBits =>
      congr 1
      apply Nat.eq_of_testBit_eq
      intro index
      exact Bool.eq_iff_iff.mpr (same index)

theorem mem_def {element : Nat} {set : NatSet} : element ∈ set ↔ set.bits.testBit element = true :=
  Iff.rfl

@[simp]
theorem not_mem_empty (element : Nat) : ¬ element ∈ empty := by
  simp [mem_def, empty]

@[simp]
theorem mem_singleton {element other : Nat} : element ∈ singleton other ↔ element = other := by
  simp only [mem_def, singleton, Nat.shiftLeft_eq, Nat.one_mul, Nat.testBit_two_pow, decide_eq_true_eq]
  exact eq_comm

@[simp]
theorem mem_union {element : Nat} {left right : NatSet} :
    element ∈ left.union right ↔ element ∈ left ∨ element ∈ right := by
  simp [mem_def, union, Nat.testBit_or]

@[simp]
theorem mem_inter {element : Nat} {left right : NatSet} :
    element ∈ left.inter right ↔ element ∈ left ∧ element ∈ right := by
  simp [mem_def, inter, Nat.testBit_and]

@[simp]
theorem mem_diff {element : Nat} {left right : NatSet} :
    element ∈ left.diff right ↔ element ∈ left ∧ ¬ element ∈ right := by
  simp only [mem_def, diff, Nat.testBit_xor, Nat.testBit_and]
  cases left.bits.testBit element <;> cases right.bits.testBit element <;> simp

@[simp]
theorem mem_insert {element other : Nat} {set : NatSet} :
    element ∈ set.insert other ↔ element ∈ set ∨ element = other := by
  simp [insert]

@[simp]
theorem mem_erase {element other : Nat} {set : NatSet} :
    element ∈ set.erase other ↔ element ∈ set ∧ element ≠ other := by
  simp [erase]

theorem mem_foldl_union {α : Type} {items : List α} {set : NatSet} {part : α → NatSet} {element : Nat} :
    element ∈ items.foldl (fun set item => set.union (part item)) set ↔
      element ∈ set ∨ ∃ item ∈ items, element ∈ part item := by
  induction items generalizing set with
  | nil => simp
  | cons first rest ih => simp [ih, or_assoc]

theorem mem_toList {element : Nat} {set : NatSet} : element ∈ set.toList ↔ element ∈ set := by
  simp only [toList, List.mem_filter, List.mem_range, mem_def, contains]
  constructor
  · exact fun both => both.2
  · intro member
    refine ⟨?_, member⟩
    have bound := Nat.ge_two_pow_of_testBit member
    have nonzero : set.bits ≠ 0 := by
      intro zero
      rw [zero] at member
      simp at member
    exact Nat.lt_succ_of_le ((Nat.le_log2 nonzero).mpr bound)

end NatSet

end FplCompiler
