/-! Finite maps from natural numbers, as lists of pairs with ascending keys. -/

namespace FplCompiler

theorem mem_of_lookup {κ α : Type} [BEq κ] [LawfulBEq κ] {entries : List (κ × α)} {key : κ} {value : α}
    (found : entries.lookup key = some value) : (key, value) ∈ entries := by
  obtain ⟨front, back, split, _⟩ := List.lookup_eq_some_iff.mp found
  simp [split]

/-- A map has each key once, since its keys ascend. -/
structure NatMap (α : Type) where
  entries : List (Nat × α)
  ascending : entries.Pairwise fun first second => first.1 < second.1
  deriving DecidableEq, Repr

namespace NatMap

variable {α : Type}

def empty : NatMap α :=
  ⟨[], .nil⟩

instance : EmptyCollection (NatMap α) :=
  ⟨empty⟩

instance : Inhabited (NatMap α) :=
  ⟨empty⟩

def get? (map : NatMap α) (key : Nat) : Option α :=
  map.entries.lookup key

def contains (map : NatMap α) (key : Nat) : Bool :=
  (map.get? key).isSome

def insertEntry (key : Nat) (value : α) : List (Nat × α) → List (Nat × α)
  | [] => [(key, value)]
  | (other, held) :: rest =>
    if key < other then (key, value) :: (other, held) :: rest
    else if key = other then (key, value) :: rest
    else (other, held) :: insertEntry key value rest

theorem mem_insertEntry {key : Nat} {value : α} {entries : List (Nat × α)}
    (ascending : entries.Pairwise fun first second => first.1 < second.1) {entry : Nat × α}
    (member : entry ∈ insertEntry key value entries) : entry = (key, value) ∨ (entry ∈ entries ∧ entry.1 ≠ key) := by
  induction entries with
  | nil => exact .inl (List.mem_singleton.mp member)
  | cons first rest ih =>
    obtain ⟨other, held⟩ := first
    obtain ⟨above, restAscending⟩ := List.pairwise_cons.mp ascending
    unfold insertEntry at member
    split at member
    case isTrue below =>
      rcases List.mem_cons.mp member with here | old
      · exact .inl here
      · refine .inr ⟨old, ?_⟩
        rcases List.mem_cons.mp old with rfl | later
        · exact Nat.ne_of_gt below
        · exact Nat.ne_of_gt (Nat.lt_trans below (above entry later))
    case isFalse notBelow =>
      split at member
      case isTrue same =>
        rcases List.mem_cons.mp member with here | later
        · exact .inl here
        · exact .inr ⟨List.mem_cons_of_mem _ later, Nat.ne_of_gt (same ▸ above entry later)⟩
      case isFalse different =>
        rcases List.mem_cons.mp member with rfl | later
        · exact .inr ⟨List.mem_cons_self, fun same => different same.symm⟩
        · exact (ih restAscending later).imp id fun old => ⟨List.mem_cons_of_mem _ old.1, old.2⟩

theorem ascending_insertEntry (key : Nat) (value : α) {entries : List (Nat × α)}
    (ascending : entries.Pairwise fun first second => first.1 < second.1) :
    (insertEntry key value entries).Pairwise fun first second => first.1 < second.1 := by
  induction entries with
  | nil => exact List.pairwise_singleton _ _
  | cons first rest ih =>
    obtain ⟨other, held⟩ := first
    obtain ⟨above, restAscending⟩ := List.pairwise_cons.mp ascending
    unfold insertEntry
    split
    case isTrue below =>
      refine List.pairwise_cons.mpr ⟨fun entry member => ?_, ascending⟩
      rcases List.mem_cons.mp member with rfl | later
      · exact below
      · exact Nat.lt_trans below (above entry later)
    case isFalse notBelow =>
      split
      case isTrue same => exact List.pairwise_cons.mpr ⟨fun entry member => same ▸ above entry member, restAscending⟩
      case isFalse different =>
        refine List.pairwise_cons.mpr ⟨fun entry member => ?_, ih restAscending⟩
        rcases mem_insertEntry restAscending member with rfl | old
        · exact Nat.lt_of_le_of_ne (Nat.le_of_not_lt notBelow) fun same => different same.symm
        · exact above entry old.1

def insert (map : NatMap α) (key : Nat) (value : α) : NatMap α :=
  ⟨insertEntry key value map.entries, ascending_insertEntry key value map.ascending⟩

def filter (keep : Nat → α → Bool) (map : NatMap α) : NatMap α :=
  ⟨map.entries.filter fun entry => keep entry.1 entry.2, map.ascending.filter _⟩

def erase (map : NatMap α) (key : Nat) : NatMap α :=
  map.filter fun other _ => other ≠ key

theorem mem_of_get? {map : NatMap α} {key : Nat} {value : α} (found : map.get? key = some value) :
    (key, value) ∈ map.entries :=
  mem_of_lookup found

theorem get?_of_mem {map : NatMap α} {key : Nat} {value : α} (member : (key, value) ∈ map.entries) :
    map.get? key = some value := by
  obtain ⟨front, back, split⟩ := List.append_of_mem member
  refine List.lookup_eq_some_iff.mpr ⟨front, back, split, fun entry earlier => ?_⟩
  have ascending := map.ascending
  rw [split] at ascending
  have below := (List.pairwise_append.mp ascending).2.2 entry earlier (key, value) List.mem_cons_self
  simpa using Nat.ne_of_gt below

theorem mem_insert {map : NatMap α} {key : Nat} {value : α} {entry : Nat × α}
    (member : entry ∈ (map.insert key value).entries) : entry = (key, value) ∨ (entry ∈ map.entries ∧ entry.1 ≠ key) :=
  mem_insertEntry map.ascending member

theorem mem_erase {map : NatMap α} {key : Nat} {entry : Nat × α} :
    entry ∈ (map.erase key).entries ↔ entry ∈ map.entries ∧ entry.1 ≠ key := by
  simp [erase, filter]

end NatMap

end FplCompiler
