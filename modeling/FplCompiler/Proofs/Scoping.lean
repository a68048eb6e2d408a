import FplCompiler.Collection.NatMap
import FplCompiler.Declaration.Table
import FplCompiler.Flow.Scope

/-! Which symbols are seen from a scope, and what stays when further ones are declared. -/

namespace FplCompiler

theorem getD_push {α : Type} (items : Array α) (added fallback : α) (index : Nat) :
    (items.push added).getD index fallback = if index = items.size then added else items.getD index fallback := by
  simp only [Array.getD_eq_getD_getElem?, Array.getElem?_push]
  split <;> rfl

namespace ScopeTree

variable {tree after : ScopeTree} {name : String} {symbol : SymbolId} {home : ScopeId}

theorem searchUp_found {α : Type} {found? : ScopeId → Scope → Option α} {answer : α}
    {bound : Nat} {start : ScopeId} (found : tree.searchUp found? bound start = some answer) :
    ∃ scope, found? scope (tree.scope scope) = some answer := by
  induction bound generalizing start with
  | zero => simp [searchUp] at found
  | succ bound ih =>
    simp only [searchUp] at found
    split at found
    case h_1 result here => exact ⟨start, by rw [here, found]⟩
    case h_2 =>
      split at found
      case h_1 => exact ih found
      case h_2 => simp at found

theorem lookup_bound (found : tree.lookup name = some symbol) :
    ∃ scope, (name, symbol) ∈ (tree.scope scope).symbols := by
  obtain ⟨scope, answered⟩ := searchUp_found found
  exact ⟨scope, mem_of_lookup answered⟩

theorem push_scope (tree : ScopeTree) (kind : ScopeKind) (id : ScopeId) :
    (tree.push kind).scope id =
      if id = tree.scopes.size then ⟨some tree.current, kind, []⟩ else tree.scope id :=
  getD_push _ _ _ id

theorem pop_scope (tree : ScopeTree) (id : ScopeId) : tree.pop.scope id = tree.scope id := by
  unfold pop
  split <;> rfl

structure Adds (before after : ScopeTree) (homes : ScopeId → Prop) (name : String) (symbol : SymbolId) : Prop where
  kind : ∀ id, (after.scope id).kind = (before.scope id).kind
  symbols : ∀ id, ∃ added, (after.scope id).symbols = (before.scope id).symbols ++ added ∧
    ∀ entry ∈ added, homes id ∧ entry = (name, symbol)

namespace Adds

variable {before between : ScopeTree} {homes wider : ScopeId → Prop} {name : String} {symbol : SymbolId}

theorem refl (tree : ScopeTree) (homes : ScopeId → Prop) (name : String) (symbol : SymbolId) :
    tree.Adds tree homes name symbol :=
  ⟨fun _ => rfl, fun _ => ⟨[], by simp, by simp⟩⟩

theorem trans (first : before.Adds between homes name symbol) (second : between.Adds after homes name symbol) :
    before.Adds after homes name symbol where
  kind id := (second.kind id).trans (first.kind id)
  symbols id := by
    obtain ⟨added, same, allowed⟩ := first.symbols id
    obtain ⟨further, sameAgain, allowedAgain⟩ := second.symbols id
    refine ⟨added ++ further, by rw [sameAgain, same, List.append_assoc], fun entry member => ?_⟩
    exact (List.mem_append.mp member).elim (allowed entry) (allowedAgain entry)

theorem mono (adds : before.Adds after homes name symbol) (within : ∀ id, homes id → wider id) :
    before.Adds after wider name symbol :=
  { adds with
    symbols := fun id => by
      obtain ⟨added, same, allowed⟩ := adds.symbols id
      exact ⟨added, same, fun entry member => (allowed entry member).imp_left (within id)⟩ }

theorem new (adds : before.Adds after homes name symbol) {id : ScopeId} {entry : String × SymbolId}
    (member : entry ∈ (after.scope id).symbols) :
    entry ∈ (before.scope id).symbols ∨ (homes id ∧ entry = (name, symbol)) := by
  obtain ⟨added, same, allowed⟩ := adds.symbols id
  rw [same] at member
  exact (List.mem_append.mp member).imp_right (allowed entry)

end Adds

theorem defineIn_scope (defined : tree.defineIn home name symbol = .ok after) :
    after.current = tree.current ∧ after.scopes.size = tree.scopes.size ∧ ∀ id, after.scope id =
      if home = id ∧ id < tree.scopes.size then
        { tree.scope id with symbols := (tree.scope id).symbols ++ [(name, symbol)] }
      else tree.scope id := by
  simp only [defineIn] at defined
  split at defined
  · simp at defined
  · have defined : after = _ := (Except.ok.inj defined).symm
    refine ⟨by rw [defined], by simp [defined], fun id => ?_⟩
    rw [defined]
    simp only [scope, Array.getD_eq_getD_getElem?, Array.getElem?_modify]
    by_cases same : home = id <;> by_cases known : id < tree.scopes.size <;> simp [same, known]

theorem defineIn_adds
    (defined : tree.defineIn home name symbol = .ok after) : tree.Adds after (· = home) name symbol := by
  obtain ⟨_, _, scopes⟩ := defineIn_scope defined
  refine ⟨fun id => ?_, fun id => ?_⟩
  · rw [scopes]
    split <;> rfl
  · rw [scopes]
    split
    case isTrue here => exact ⟨[(name, symbol)], rfl, by simp [here.1]⟩
    case isFalse => exact ⟨[], by simp, by simp⟩

end ScopeTree

namespace Symbol

def KeptAs (earlier later : Symbol) : Prop :=
  later = earlier ∨ (later.name = earlier.name ∧ later.type = earlier.type ∧
    (∃ overloads, earlier.kind = .function overloads) ∧ ∃ overloads, overloads ≠ [] ∧ later.kind = .function overloads)

namespace KeptAs

variable {earlier between later : Symbol}

theorem type (kept : earlier.KeptAs later) : later.type = earlier.type :=
  kept.elim (· ▸ rfl) fun kept => kept.2.1

theorem trans (first : earlier.KeptAs between) (second : between.KeptAs later) : earlier.KeptAs later := by
  rcases first with rfl | ⟨name, type, function, _⟩
  · exact second
  · rcases second with rfl | ⟨nameAgain, typeAgain, _, functionToo⟩
    · exact .inr ⟨name, type, function, ‹_›⟩
    · exact .inr ⟨nameAgain.trans name, typeAgain.trans type, function, functionToo⟩

end KeptAs

end Symbol

namespace Declarations

structure Extends (before after : Declarations) : Prop where
  size : before.symbols.size ≤ after.symbols.size
  symbol : ∀ id, id < before.symbols.size → (before.symbol id).KeptAs (after.symbol id)
  functions : before.functions.size ≤ after.functions.size

theorem Extends.refl (table : Declarations) : table.Extends table :=
  ⟨Nat.le_refl _, fun _ _ => .inl rfl, Nat.le_refl _⟩

theorem Extends.trans {before between after : Declarations} (first : before.Extends between)
    (second : between.Extends after) : before.Extends after where
  size := Nat.le_trans first.size second.size
  symbol id known := (first.symbol id known).trans (second.symbol id (Nat.lt_of_lt_of_le known first.size))
  functions := Nat.le_trans first.functions second.functions

theorem symbol_outside {table : Declarations} {id : SymbolId} (outside : ¬id < table.symbols.size) :
    table.symbol id = default := by
  simp [symbol, Array.getElem?_eq_none (Nat.le_of_not_lt outside)]

theorem addSymbol_symbol (table : Declarations) (added : Symbol) (id : SymbolId) :
    (table.addSymbol added).2.symbol id = if id = table.symbols.size then added else table.symbol id :=
  getD_push _ _ _ id

theorem addSymbol_extends (table : Declarations) (added : Symbol) : table.Extends (table.addSymbol added).2 where
  size := by simp [addSymbol]
  symbol id known := .inl (by rw [addSymbol_symbol, if_neg (Nat.ne_of_lt known)])
  functions := Nat.le_refl _

theorem addFunction_function (table : Declarations) (added : FunctionDef) (id : FunctionId) :
    (table.addFunction added).2.function id = if id = table.functions.size then added else table.function id :=
  getD_push _ _ _ id

theorem addFunction_extends (table : Declarations) (added : FunctionDef) : table.Extends (table.addFunction added).2 :=
  ⟨Nat.le_refl _, fun _ _ => .inl rfl, by simp [addFunction]⟩

theorem overload_extends (table : Declarations) {existing : SymbolId} {overloads further : List FunctionInstance}
    (some : further ≠ []) (function : (table.symbol existing).kind = .function overloads) :
    table.Extends (table.modifySymbol existing fun symbol => { symbol with kind := .function further }) := by
  refine ⟨by simp [modifySymbol], fun id known => ?_, Nat.le_refl _⟩
  by_cases here : existing = id
  · subst here
    have changed : (table.modifySymbol existing fun symbol => { symbol with kind := .function further }).symbol existing =
        { table.symbol existing with kind := .function further } := by
      simp only [modifySymbol, symbol, Array.getD_eq_getD_getElem?, Array.getElem?_modify]
      simp [known]
    rw [changed]
    exact .inr ⟨rfl, rfl, ⟨overloads, function⟩, ⟨further, some, rfl⟩⟩
  · refine .inl ?_
    simp [modifySymbol, symbol, Array.getElem?_modify, here]

end Declarations

end FplCompiler
