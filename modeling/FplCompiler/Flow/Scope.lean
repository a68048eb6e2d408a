import FplCompiler.Declaration.Symbol

/-! Scopes. They form a tree in which a scope's parent is older than the scope; names are looked up from the current
scope towards the root. Scopes stay when they are left, since those of files, classes and enums are entered again. -/

namespace FplCompiler

abbrev ScopeId := Nat

inductive ScopeKind where
  | global | file | class_ | enum | function | block | loop
  deriving DecidableEq, Repr, Inhabited

structure Scope where
  parent : Option ScopeId
  kind : ScopeKind
  symbols : List (String × SymbolId)
  deriving Repr, Inhabited

structure ScopeTree where
  scopes : Array Scope
  current : ScopeId
  deriving Repr, Inhabited

namespace ScopeTree

def empty : ScopeTree :=
  ⟨#[⟨none, .global, []⟩], 0⟩

def global : ScopeId :=
  0

def scope (tree : ScopeTree) (id : ScopeId) : Scope :=
  tree.scopes.getD id default

def push (tree : ScopeTree) (kind : ScopeKind) : ScopeTree :=
  ⟨tree.scopes.push ⟨some tree.current, kind, []⟩, tree.scopes.size⟩

def pop (tree : ScopeTree) : ScopeTree :=
  match (tree.scope tree.current).parent with
  | some parent => { tree with current := parent }
  | none => tree

def enter (tree : ScopeTree) (id : ScopeId) : ScopeTree :=
  { tree with current := id }

def lookupIn (tree : ScopeTree) (id : ScopeId) (name : String) : Option SymbolId :=
  (tree.scope id).symbols.lookup name

def defineIn (tree : ScopeTree) (id : ScopeId) (name : String) (symbol : SymbolId) :
    Except SymbolId ScopeTree :=
  match tree.lookupIn id name with
  | some existing => .error existing
  | none =>
    .ok { tree with
      scopes := tree.scopes.modify id fun scope =>
        { scope with symbols := scope.symbols ++ [(name, symbol)] } }

def define (tree : ScopeTree) (name : String) (symbol : SymbolId) : Except SymbolId ScopeTree :=
  tree.defineIn tree.current name symbol

def searchUp {α : Type} (tree : ScopeTree) (found? : ScopeId → Scope → Option α) :
    Nat → ScopeId → Option α
  | 0, _ => none
  | bound + 1, id =>
    match found? id (tree.scope id) with
    | some answer => some answer
    | none =>
      match (tree.scope id).parent with
      | some parent => searchUp tree found? bound parent
      | none => none

def lookup (tree : ScopeTree) (name : String) : Option SymbolId :=
  tree.searchUp (fun _ scope => scope.symbols.lookup name) (tree.current + 1) tree.current

def currentKind (tree : ScopeTree) : ScopeKind :=
  (tree.scope tree.current).kind

end ScopeTree

end FplCompiler
