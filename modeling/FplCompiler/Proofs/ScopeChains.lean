import FplCompiler.Proofs.Scoping
import Mathlib.Logic.Relation

/-!
Scopes as a stack of environments. Whatever is done with a tree of scopes, a name is looked up in the scopes around the
current one, nearest first, and a name once bound in a scope stays bound to the same symbol there.
-/

namespace FplCompiler.ScopeTree

variable {tree later : ScopeTree} {id parent scope : ScopeId} {name : String} {symbol : SymbolId}

/-- An operation. A definition in the current scope is one in a given scope. -/
inductive Step (tree : ScopeTree) : ScopeTree → Prop
  | push (kind : ScopeKind) : Step tree (tree.push kind)
  | pop : Step tree tree.pop
  | enter {id : ScopeId} (known : id < tree.scopes.size) : Step tree (tree.enter id)
  | define {id : ScopeId} {name : String} {symbol : SymbolId} {after : ScopeTree}
      (defined : tree.defineIn id name symbol = .ok after) : Step tree after

def Reaches : ScopeTree → ScopeTree → Prop :=
  Relation.ReflTransGen Step

structure WellFormed (tree : ScopeTree) : Prop where
  known : tree.current < tree.scopes.size
  older : ∀ id parent, (tree.scope id).parent = some parent → parent < id

/-- Scopes keep their place in the tree and their bindings. -/
structure Grows (tree later : ScopeTree) : Prop where
  size : tree.scopes.size ≤ later.scopes.size
  parent : ∀ id < tree.scopes.size, (later.scope id).parent = (tree.scope id).parent
  names : ∀ id < tree.scopes.size, ∀ name symbol, tree.lookupIn id name = some symbol → later.lookupIn id name = some symbol

theorem Grows.refl (tree : ScopeTree) : tree.Grows tree :=
  ⟨Nat.le_refl _, fun _ _ => rfl, fun _ _ _ _ bound => bound⟩

theorem Grows.trans {first second third : ScopeTree} (lower : first.Grows second) (upper : second.Grows third) :
    first.Grows third where
  size := Nat.le_trans lower.size upper.size
  parent id known := (upper.parent id (Nat.lt_of_lt_of_le known lower.size)).trans (lower.parent id known)
  names id known name symbol bound :=
    upper.names id (Nat.lt_of_lt_of_le known lower.size) name symbol (lower.names id known name symbol bound)

theorem Step.grows (step : tree.Step later) : tree.Grows later := by
  cases step with
  | push kind =>
    have kept : ∀ id < tree.scopes.size, (tree.push kind).scope id = tree.scope id := fun id known => by
      rw [push_scope, if_neg (Nat.ne_of_lt known)]
    refine ⟨by simp [ScopeTree.push], fun id known => by rw [kept id known], fun id known name symbol bound => ?_⟩
    rw [lookupIn, kept id known]
    exact bound
  | pop =>
    refine ⟨?_, fun id _ => by rw [pop_scope], fun id _ name symbol bound => ?_⟩
    · unfold ScopeTree.pop
      split <;> exact Nat.le_refl _
    · rw [lookupIn, pop_scope]
      exact bound
  | enter => exact ⟨Nat.le_refl _, fun _ _ => rfl, fun _ _ _ _ bound => bound⟩
  | define defined =>
    obtain ⟨_, size, scopes⟩ := defineIn_scope defined
    refine ⟨Nat.le_of_eq size.symm, fun id _ => ?_, fun id _ name symbol bound => ?_⟩
    · rw [scopes]
      split <;> rfl
    · rw [lookupIn, scopes]
      split
      · rw [List.lookup_append, show (tree.scope id).symbols.lookup name = _ from bound, Option.some_or]
      · exact bound

theorem Step.wellFormed (step : tree.Step later) (wellFormed : tree.WellFormed) : later.WellFormed := by
  cases step with
  | push kind =>
    refine ⟨by simp [ScopeTree.push], fun id parent up => ?_⟩
    rw [push_scope] at up
    split at up
    · rename_i new
      cases up
      exact new ▸ wellFormed.known
    · exact wellFormed.older id parent up
  | pop =>
    refine ⟨?_, fun id parent up => wellFormed.older id parent (pop_scope tree id ▸ up)⟩
    unfold ScopeTree.pop
    split
    · exact Nat.lt_trans (wellFormed.older _ _ (by assumption)) wellFormed.known
    · exact wellFormed.known
  | enter known => exact ⟨known, wellFormed.older⟩
  | define defined =>
    obtain ⟨current, size, scopes⟩ := defineIn_scope defined
    refine ⟨by rw [current, size]; exact wellFormed.known, fun id parent up => wellFormed.older id parent ?_⟩
    rw [scopes] at up
    split at up <;> exact up

theorem Reaches.wellFormed (reaches : empty.Reaches tree) : tree.WellFormed := by
  induction reaches with
  | refl => exact ⟨by decide, fun id parent up => by cases id <;> cases up⟩
  | tail _ step ih => exact step.wellFormed ih

theorem Reaches.grows (reaches : tree.Reaches later) : tree.Grows later := by
  induction reaches with
  | refl => exact .refl _
  | tail _ step ih => exact ih.trans step.grows

/-- A scope and those around it. -/
def Within (tree : ScopeTree) : ScopeId → ScopeId → Prop :=
  Relation.ReflTransGen fun id parent => (tree.scope id).parent = some parent

theorem Within.outer {other : ScopeId} (up : (tree.scope id).parent = some parent) (within : tree.Within id other) :
    other = id ∨ tree.Within parent other := by
  rcases within.cases_head with rfl | ⟨_, isParent, rest⟩
  · exact .inl rfl
  · cases up.symm.trans isParent
    exact .inr rest

/-- The result of a search from a scope: the answer of the nearest scope that has one. -/
def Finds {α : Type} (tree : ScopeTree) (start : ScopeId) (answer? : ScopeId → Option α) (result : Option α) : Prop :=
  (∃ scope, tree.Within start scope ∧ (answer? scope).isSome ∧ result = answer? scope ∧
      ∀ other, tree.Within start other → (answer? other).isSome → tree.Within scope other) ∨
    result = none ∧ ∀ other, tree.Within start other → answer? other = none

/-- A name is found by a definition that was made later, nearer than any scope that bound the name before. -/
def Redefined (tree later : ScopeTree) (id : ScopeId) (name : String) (result : Option SymbolId) : Prop :=
  ∃ scope, tree.Within id scope ∧ tree.lookupIn scope name = none ∧ (later.lookupIn scope name).isSome ∧
    result = later.lookupIn scope name ∧
    ∀ other, tree.Within id other → (tree.lookupIn other name).isSome → tree.Within scope other

theorem Grows.searchUp (grows : tree.Grows later) (wellFormed : tree.WellFormed) (known : id < tree.scopes.size)
    (bound : Nat) : later.searchUp (fun _ scope => scope.symbols.lookup name) bound id =
        tree.searchUp (fun _ scope => scope.symbols.lookup name) bound id ∨
      Redefined tree later id name (later.searchUp (fun _ scope => scope.symbols.lookup name) bound id) := by
  induction bound generalizing id with
  | zero => exact .inl rfl
  | succ bound ih =>
    simp only [ScopeTree.searchUp]
    cases old : (tree.scope id).symbols.lookup name with
    | some symbol =>
      rw [show (later.scope id).symbols.lookup name = _ from grows.names id known name symbol old]
      exact .inl rfl
    | none =>
    cases new : (later.scope id).symbols.lookup name with
    | some symbol => exact .inr ⟨id, .refl, old, by simp [lookupIn, new], new.symm, fun _ within _ => within⟩
    | none =>
    rw [grows.parent id known]
    cases up : (tree.scope id).parent with
    | none => exact .inl rfl
    | some parent =>
      refine (ih (Nat.lt_trans (wellFormed.older id parent up) known)).imp_right fun redefined => ?_
      obtain ⟨scope, within, free, isBound, found, nearer⟩ := redefined
      refine ⟨scope, .head up within, free, isBound, found, fun other inside bound => ?_⟩
      rcases Within.outer up inside with rfl | further
      · simp [lookupIn, old] at bound
      · exact nearer other further bound

end FplCompiler.ScopeTree
