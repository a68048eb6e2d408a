import FplCompiler.Proofs.DistinctCases
import FplCompiler.Proofs.GenericLayout
import FplCompiler.Proofs.StatementChecks

/-!
The nodes that the analysis makes name functions, columns and members that are declared, and their types are built as
types are written. What is declared and what is known of the variables stays such that this is so.
-/

namespace FplCompiler

def FunctionDef.received (function : FunctionDef) : List SymbolId :=
  function.thisSymbol.toList ++ function.parameters

variable {type expected element target : Ty} {expr : Typed.Expr} {shape : Typed.ExprShape}
  {overloads : List FunctionInstance}

theorem Ty.isBuilt_of_isCounted (counted : type.isCounted = true) : type.isBuilt = true := by
  unfold Ty.isCounted at counted
  split at counted <;> first | rfl | cases counted

theorem Ty.isError_of_isBuilt (built : type.isBuilt = true) : type.isError = false := by
  refine decide_eq_false ?_
  rintro rfl
  cases built

theorem Ty.isCounted_promoted (counted : type.isCounted = true) : type.promoted.isCounted = true := by
  unfold Ty.promoted
  split
  · rfl
  · exact counted

namespace Analysis

open Check

variable {before after : State} {basis : Basis} {function : FunctionInstance} {checkArguments : Check (List Typed.Expr)}
  {arguments exprs : List Typed.Expr} {more : Prop} {β α : Type} {span : Span} {result : α}

/-- What nodes may name: the functions and symbols that are declared in the end, and the columns of enums. So many symbols
and functions are declared already. -/
structure Basis where
  table : Declarations
  columns : EnumId → List EnumColumn
  symbols : Nat
  functions : Nat

theorem isCounted_of_isWord (word : isWord type = true) : type.isCounted = true := by
  unfold isWord at word
  split at word <;> first | rfl | cases word

/-- A cast between types that are not the same goes from word to word, or forgets the type of a reference. -/
theorem cases_of_castAllowed {source : Ty} (allowed : castAllowed source target = true)
    (sourceBuilt : source.isBuilt = true) (targetBuilt : target.isBuilt = true) :
    source = target ∨ (isWord source = true ∧ isWord target = true) ∨
      (target = .any ∧ source.isCounted = false ∧ source ≠ .real) := by
  simp only [castAllowed, Ty.isError_of_isBuilt sourceBuilt, Ty.isError_of_isBuilt targetBuilt, Bool.or_false,
    Bool.or_eq_true, Bool.and_eq_true, decide_eq_true_eq] at allowed
  rcases allowed with (same | words) | ⟨any, reference⟩
  · exact Or.inl same
  · exact Or.inr (Or.inl words)
  · refine Or.inr (Or.inr ⟨any, ?_⟩)
    rcases reference with heap | null
    · unfold Ty.isHeapReference at heap
      split at heap <;> first | exact ⟨rfl, by simp⟩ | cases heap
    · split at null <;> first | exact ⟨rfl, by simp⟩ | cases null

namespace Basis

/-- Whether a node of a type names what is declared, and has a type that goes with its parts. A member has its declared
type, or that type seen through the type of its object; a node in place of an error names nothing that is declared. -/
def Names (basis : Basis) (type : Ty) : Typed.ExprShape → Prop
  | .int _ => type.isCounted = true
  | .real _ => type = .real
  | .string _ => type = .string
  | .minus operand => type = operand.type.promoted
  | .cast operand => castAllowed operand.type type = true
  | .binary op left _ => type = if op.isComparison then .bool else left.type.promoted
  | .functionName _ function | .methodCall _ function _ | .createObject _ function _ _ =>
    function < basis.table.functions.size
  | .enumData _ enum column => column < (basis.columns enum).length
  | .member object field => ∀ cls arguments, object.type = .object cls arguments →
    type = (basis.table.symbol field).type ∨ type = (basis.table.symbol field).type.substitute object.type.bindings
  | .error _ => False
  | _ => True

structure Sound (basis : Basis) (node : Typed.Expr) : Prop where
  built : node.type.isBuilt = true
  names : basis.Names node.type node.shape

def Holds (basis : Basis) (expr : Typed.Expr) : Prop :=
  ∀ node ∈ expr.within, basis.Sound node

def HoldsAll (basis : Basis) (exprs : List Typed.Expr) : Prop :=
  ∀ expr ∈ exprs, basis.Holds expr

def HoldsStmt (basis : Basis) : Typed.Stmt → Prop
  | .error _ => False
  | .whenCases subject clauses =>
    basis.HoldsAll (Typed.Stmt.whenCases subject clauses).parts ∧ Typed.Chooses subject clauses
  | stmt => basis.HoldsAll stmt.parts

def HoldsStmts (basis : Basis) (stmts : List Typed.Stmt) : Prop :=
  ∀ stmt ∈ stmts, basis.HoldsStmt stmt

abbrev HoldsWithin (basis : Basis) (stmt : Typed.Stmt) : Prop :=
  basis.HoldsStmts stmt.within

abbrev HoldsBody (basis : Basis) (stmts : List Typed.Stmt) : Prop :=
  basis.HoldsStmts (Typed.stmtsWithin stmts)

structure FitsInstance (basis : Basis) (function : FunctionInstance) : Prop where
  known : function.function < basis.table.functions.size
  parameters : ∀ type ∈ function.parameterTypes, type.isBuilt = true
  result : function.returnType.isBuilt = true

structure FitsSymbol (basis : Basis) (symbol : Symbol) : Prop where
  built : symbol.type.isBuilt = true
  overloads : ∀ overloads, symbol.kind = .function overloads → ∀ function ∈ overloads, basis.FitsInstance function
  constant : ∀ value type, symbol.kind = .constant (.int value type) → type.isCounted = true

end Basis

def BuiltFacts (facts : Facts Ty) : Prop :=
  ∀ entry ∈ facts.narrowed.entries, entry.2.isBuilt = true

structure BuiltContext (context : Context) : Prop where
  returnType : ∀ type, context.returnType = some type → type.isBuilt = true
  breaks : ∀ facts ∈ context.breaks, BuiltFacts facts
  continues : ∀ facts ∈ context.continues, BuiltFacts facts

structure Basis.Fits (basis : Basis) (state : State) : Prop where
  size : basis.symbols ≤ state.table.symbols.size
  functions : basis.functions ≤ state.table.functions.size
  symbol : ∀ id < state.table.symbols.size, basis.FitsSymbol (state.table.symbol id)
  result : ∀ id < state.table.functions.size, (state.table.function id).returnType.isBuilt = true
  parameters : ∀ id, ∀ parameter ∈ (state.table.function id).received, parameter < state.table.symbols.size
  found : ∀ entry ∈ state.functionAt, entry.2.1 < state.table.functions.size
  bound : ∀ scope entry, entry ∈ (state.scopes.scope scope).symbols → entry.2 < state.table.symbols.size
  members : ∀ cls, ∀ member ∈ (state.table.classDef cls).members, member.2 < state.table.symbols.size
  constructor : ∀ cls function, (state.table.classDef cls).constructor? = some function →
    function < basis.table.functions.size
  columns : ∀ enum, (state.table.enumDef enum).columns = basis.columns enum
  columnTypes : ∀ enum, ∀ column ∈ basis.columns enum, column.type.isBuilt = true
  facts : BuiltFacts state.facts
  context : BuiltContext state.context
  fields : ∀ entry ∈ state.fieldStatements, basis.HoldsBody entry.2

structure Basis.LeadsFrom (basis : Basis) (state : State) : Prop where
  accepted : state.Accepted
  table : state.table.Extends basis.table

structure Develops (before after : State) : Prop where
  accepted : after.Accepted → before.Accepted
  table : before.table.Extends after.table

namespace Develops

theorem refl (state : State) : Develops state state :=
  ⟨id, .refl _⟩

theorem trans {between : State} (first : Develops before between) (second : Develops between after) :
    Develops before after :=
  ⟨first.accepted ∘ second.accepted, first.table.trans second.table⟩

theorem leads (develops : Develops before after) (leads : basis.LeadsFrom after) :
    basis.LeadsFrom before :=
  ⟨develops.accepted leads.accepted, develops.table.trans leads.table⟩

theorem ofMarked (marked : Marked before after) : Develops before after :=
  ⟨marked.accepted, by rw [marked.table]; exact .refl _⟩

end Develops

theorem fieldStatements_of_registry (same : after.registry = before.registry) :
    after.fieldStatements = before.fieldStatements := by
  simp only [State.registry, Prod.mk.injEq] at same
  exact same.2.2.2.2.2.2.1

theorem functionAt_of_registry (same : after.registry = before.registry) :
    after.functionAt = before.functionAt := by
  simp only [State.registry, Prod.mk.injEq] at same
  exact same.2.2.2.2.1

theorem Basis.Fits.alike (fits : basis.Fits before) (table : after.table = before.table)
    (facts : after.facts = before.facts) (context : after.context = before.context)
    (functionAt : after.functionAt = before.functionAt) (fields : after.fieldStatements = before.fieldStatements)
    (bound : ∀ scope entry, entry ∈ (after.scopes.scope scope).symbols → entry.2 < before.table.symbols.size) :
    basis.Fits after := by
  cases before
  subst table facts context functionAt fields
  exact { fits with bound := bound }

theorem Basis.Fits.marked (fits : basis.Fits before) (marked : Marked before after) : basis.Fits after :=
  fits.alike marked.table marked.facts marked.context (functionAt_of_registry marked.registry)
    (fieldStatements_of_registry marked.registry) (by rw [marked.scopes]; exact fits.bound)

structure Basis.Builds {α : Type} (basis : Basis) (given : Prop) (check : Check α) (post : α → Prop) : Prop where
  develops : ∀ state, Develops state (check state).2
  holds : given → ∀ state, basis.Fits state → basis.LeadsFrom (check state).2 →
    basis.Fits (check state).2 ∧ post (check state).1

namespace Basis.Builds

variable {given : Prop} {post : α → Prop} {check first : Check α} {next : α → Check β} {last : β → Prop}

theorem mono {weaker : α → Prop} (builds : basis.Builds given check post)
    (holds : more → given) (implied : more → ∀ result, post result → weaker result) : basis.Builds more check weaker where
  develops := builds.develops
  holds more state fits leads := (builds.holds (holds more) state fits leads).imp_right (implied more _)

theorem under (builds : basis.Builds given check post) (holds : more → given) : basis.Builds more check post :=
  builds.mono holds fun _ _ holds => holds

theorem pure (holds : given → post result) : basis.Builds given (Pure.pure result) post where
  develops state := .refl state
  holds given _ fits _ := ⟨fits, holds given⟩

theorem bind
    (begins : basis.Builds given first post) (goesOn : ∀ result, basis.Builds (given ∧ post result) (next result) last) :
    basis.Builds given (first >>= next) last where
  develops state := (begins.develops state).trans ((goesOn _).develops _)
  holds given state fits leads := by
    have between := begins.holds given state fits (((goesOn _).develops _).leads leads)
    exact (goesOn _).holds ⟨given, between.2⟩ _ between.1 leads

theorem andThen (begins : basis.Builds given first post) (goesOn : ∀ result, basis.Builds given (next result) last) :
    basis.Builds given (first >>= next) last :=
  begins.bind fun result => (goesOn result).under And.left

theorem mapM {items : List α} {check : α → Check β} {post : β → Prop}
    (builds : ∀ item ∈ items, basis.Builds given (check item) post) :
    basis.Builds given (items.mapM check) fun results => ∀ result ∈ results, post result := by
  induction items with
  | nil => exact .pure fun _ => by simp
  | cons item rest ih =>
    rw [List.mapM_cons]
    refine (builds item List.mem_cons_self).bind fun first =>
      ((ih fun item member => builds item (List.mem_cons_of_mem _ member)).under And.left).bind
        fun others => .pure fun holds => ?_
    exact List.forall_mem_cons.mpr ⟨holds.1.2, holds.2⟩

end Basis.Builds

/-- What a check of a body gives. It also leaves alone what is registered of functions and classes, as no declaration does. -/
structure Basis.Gives {α : Type} (basis : Basis) (given : Prop) (check : Check α) (post : α → Prop) : Prop extends
    basis.Builds given check post where
  registry : ∀ state, (check state).2.registry = state.registry

theorem Steps.ofGives {check : Check α} {post : Basis → α → Prop}
    (gives : ∀ basis : Basis, basis.Gives False check (post basis)) : Steps check := by
  intro state
  have gives := gives ⟨state.table, fun _ => [], 0, 0⟩
  exact ⟨(gives.develops state).accepted, (gives.develops state).table, gives.registry state⟩

namespace Basis.Gives

variable {given : Prop} {post : α → Prop} {check : Check α} {found : State → α → Prop}

theorem mono {weaker : α → Prop} (gives : basis.Gives given check post)
    (holds : more → given) (implied : more → ∀ result, post result → weaker result) : basis.Gives more check weaker :=
  ⟨gives.toBuilds.mono holds implied, gives.registry⟩

theorem under (gives : basis.Gives given check post) (holds : more → given) : basis.Gives more check post :=
  ⟨gives.toBuilds.under holds, gives.registry⟩

theorem pure (holds : given → post result) : basis.Gives given (Pure.pure result) post :=
  ⟨.pure holds, fun _ => rfl⟩

theorem bind {first : Check α} {next : α → Check β} {last : β → Prop}
    (begins : basis.Gives given first post) (goesOn : ∀ result, basis.Gives (given ∧ post result) (next result) last) :
    basis.Gives given (first >>= next) last :=
  ⟨begins.toBuilds.bind fun result => (goesOn result).toBuilds,
    fun state => ((goesOn _).registry _).trans (begins.registry state)⟩

theorem andThen {first : Check α} {next : α → Check β} {last : β → Prop}
    (begins : basis.Gives given first post) (goesOn : ∀ result, basis.Gives given (next result) last) :
    basis.Gives given (first >>= next) last :=
  begins.bind fun result => (goesOn result).under And.left

theorem ofYields (yields : ∀ base, Yields base check (found base))
    (holds : given → ∀ base, basis.Fits base → base.table.Extends basis.table → ∀ result, found base result → post result) :
    basis.Gives given check post where
  develops state := .ofMarked (yields state).marked
  holds given state fits leads :=
    have extended := (Develops.ofMarked (yields state).marked).table.trans leads.table
    ⟨fits.marked (yields state).marked, holds given state fits extended _ ((yields state).holds leads.accepted)⟩
  registry state := (yields state).marked.registry

theorem marking (yields : ∀ base, Yields base check (found base)) :
    basis.Gives given check fun _ => True :=
  .ofYields yields fun _ _ _ _ _ _ => trivial

theorem ofState (same : ∀ state, ∃ (other : Check α) (known : Prop),
      check state = other state ∧ basis.Gives known other post ∧
        (given → basis.Fits state → state.table.Extends basis.table → known)) : basis.Gives given check post where
  develops state := by
    obtain ⟨other, known, run, gives, _⟩ := same state
    exact run ▸ gives.develops state
  holds given state fits := by
    obtain ⟨other, known, run, gives, implied⟩ := same state
    rw [run]
    exact fun leads => gives.holds (implied given fits ((gives.develops state).leads leads).table) state fits leads
  registry state := by
    obtain ⟨other, known, run, gives, _⟩ := same state
    exact run ▸ gives.registry state

theorem mapM {items : List α} {check : α → Check β} {post : β → Prop}
    (gives : ∀ item ∈ items, basis.Gives given (check item) post) :
    basis.Gives given (items.mapM check) fun results => ∀ result ∈ results, post result where
  toBuilds := .mapM fun item member => (gives item member).toBuilds
  registry := by
    induction items with
    | nil => exact fun _ => rfl
    | cons item rest ih =>
      intro state
      rw [List.mapM_cons]
      have others := ih fun item member => gives item (List.mem_cons_of_mem _ member)
      exact (others _).trans ((gives item List.mem_cons_self).registry state)

end Basis.Gives

namespace Basis

theorem Holds.sound (holds : basis.Holds expr) : basis.Sound expr := by
  obtain ⟨shape, span, type⟩ := expr
  exact holds _ (by simp [Typed.Expr.within])

theorem Holds.built (holds : basis.Holds expr) : expr.type.isBuilt = true :=
  holds.sound.built

theorem Holds.mk (built : type.isBuilt = true)
    (names : basis.Names type shape) (inside : ∀ node ∈ shape.within, basis.Sound node) :
    basis.Holds (.mk shape span type) := by
  intro node member
  rcases List.mem_cons.mp member with rfl | deeper
  · exact ⟨built, names⟩
  · exact inside node deeper

theorem Holds.leaf (built : type.isBuilt = true)
    (names : basis.Names type shape) (alone : shape.within = []) : basis.Holds (.mk shape span type) :=
  .mk built names (by simp [alone])

theorem HoldsAll.nil : basis.HoldsAll [] :=
  fun _ member => nomatch member

theorem HoldsAll.within (holds : basis.HoldsAll exprs) :
    ∀ node ∈ Typed.exprsWithin exprs, basis.Sound node := by
  induction exprs with
  | nil => simp [Typed.exprsWithin]
  | cons expr rest ih =>
    obtain ⟨first, others⟩ := List.forall_mem_cons.mp holds
    exact List.forall_mem_append.mpr ⟨first, ih others⟩

theorem HoldsAll.built (holds : basis.HoldsAll exprs) :
    ∀ type ∈ exprs.map Typed.Expr.type, type.isBuilt = true := by
  intro type member
  obtain ⟨expr, inside, rfl⟩ := List.mem_map.mp member
  exact (holds expr inside).built

theorem Holds.isError (holds : basis.Holds expr) : expr.type.isError = false :=
  Ty.isError_of_isBuilt holds.built

/-- A value that is known is of the type of its expression. -/
theorem Holds.hasType {constant : Constant} (holds : basis.Holds expr) (known : expr.constant? = some constant) :
    constant.HasType expr.type := by
  fun_induction Typed.Expr.constant? expr generalizing constant with
  | case1 => cases known; exact ⟨rfl, holds.sound.names⟩
  | case2 => cases known; exact holds.sound.names
  | case3 => cases known; exact Or.inl holds.sound.names
  | case4 operand _ type _ _ found ih =>
    cases known
    obtain ⟨own, inner⟩ := List.forall_mem_cons.mp holds
    exact ⟨rfl, own.names ▸ Ty.isCounted_promoted (ih inner found).2⟩
  | case5 operand _ type _ found ih =>
    cases known
    obtain ⟨own, inner⟩ := List.forall_mem_cons.mp holds
    have real : operand.type = .real := ih inner found
    exact own.names.trans (by rw [real]; rfl)
  | case7 operand _ type _ _ found ih =>
    cases known
    obtain ⟨own, inner⟩ : _ ∧ basis.Holds operand := List.forall_mem_cons.mp holds
    have counted := (ih inner found).2
    refine ⟨rfl, ?_⟩
    rcases cases_of_castAllowed own.names inner.built own.built with same | ⟨_, word⟩ | ⟨_, uncounted, _⟩
    · exact same ▸ counted
    · exact isCounted_of_isWord word
    · simp [counted] at uncounted
  | case8 operand _ type notInteger ih =>
    obtain ⟨own, inner⟩ : _ ∧ basis.Holds operand := List.forall_mem_cons.mp holds
    have typed := ih inner known
    have cast := cases_of_castAllowed own.names inner.built own.built
    cases constant with
    | int value own => exact absurd known (notInteger value own)
    | real value =>
      change operand.type = .real at typed
      rcases cast with same | ⟨word, _⟩ | ⟨_, _, other⟩
      · exact same.symm.trans typed
      · simp [typed, isWord] at word
      · exact absurd typed other
    | string value =>
      rcases cast with same | ⟨word, _⟩ | ⟨any, _⟩
      · exact same ▸ typed
      · rcases typed with text | any
        · simp [text, isWord] at word
        · simp [any, isWord] at word
      · exact Or.inr any
  | case9 op left right _ type leftKnown rightKnown rightFound leftFound leftIh rightIh =>
    obtain ⟨own, inner⟩ := List.forall_mem_cons.mp holds
    have leftTyped := leftIh (List.forall_mem_append.mp inner).1 leftFound
    have typed : type = if op.isComparison then .bool else left.type.promoted := own.names
    cases leftKnown <;> cases rightKnown <;> simp only [Typed.foldBinary?, reduceCtorEq, Option.map_eq_some_iff] at known
    case int.int =>
      obtain ⟨_, _, rfl⟩ := known
      refine ⟨rfl, ?_⟩
      rw [typed]
      split
      · rfl
      · exact Ty.isCounted_promoted leftTyped.2
    case real.real =>
      obtain ⟨_, folds, rfl⟩ := known
      have arithmetic : op.isComparison = false := by
        unfold Typed.foldReal? at folds
        split at folds <;> first | rfl | cases folds
      rw [arithmetic, leftTyped] at typed
      exact typed
  | _ => cases known

theorem HoldsAll.noError (holds : basis.HoldsAll exprs) : (exprs.map Typed.Expr.type).any Ty.isError = false := by
  simp only [List.any_map, List.any_eq_false, Bool.not_eq_true]
  exact fun expr member => (holds expr member).isError

theorem FitsInstance.mapType (fits : basis.FitsInstance function) {bindings : Substitution}
    (built : ∀ binding ∈ bindings, binding.2.isBuilt = true) : basis.FitsInstance (function.mapType bindings) where
  known := fits.known
  parameters := (Ty.allBuilt_iff _).mp (Ty.allBuilt_substitute built _ ((Ty.allBuilt_iff _).mpr fits.parameters))
  result := Ty.isBuilt_substitute built _ fits.result

end Basis

theorem built_bindings (built : type.isBuilt = true) : ∀ binding ∈ type.bindings, binding.2.isBuilt = true := by
  intro binding member
  unfold Ty.bindings at member
  split at member
  case h_1 cls arguments =>
    rw [Ty.isBuilt, Ty.allBuilt_iff] at built
    exact built _ (List.of_mem_zip member).2
  case h_2 => cases member

section

variable {given : Prop} {base : State} {object operand : Typed.Expr} {id : SymbolId} {symbol : Symbol}

theorem known_of_lookup (fits : basis.Fits base) {name : String}
    (found : base.scopes.lookup name = some id) : id < base.table.symbols.size := by
  obtain ⟨scope, member⟩ := ScopeTree.lookup_bound found
  exact fits.bound scope (name, id) member

structure Basis.Knows (basis : Basis) (id : SymbolId) (symbol : Symbol) : Prop extends basis.FitsSymbol symbol where
  type : symbol.type = (basis.table.symbol id).type

theorem Basis.Fits.knows (fits : basis.Fits base) (extended : base.table.Extends basis.table)
    (known : id < base.table.symbols.size) : basis.Knows id (base.table.symbol id) :=
  ⟨fits.symbol id known, (extended.symbol id known).type.symm⟩

theorem sound_state : basis.Gives given get fun state => basis.Fits state ∧ state.table.Extends basis.table where
  develops state := .refl state
  registry _ := rfl
  holds _ _ fits leads := ⟨fits, fits, leads.table⟩

theorem sound_get : basis.Gives given get basis.Fits :=
  sound_state.mono id fun _ _ holds => holds.1

theorem sound_report (cause : Cause) (span : Span) :
    basis.Gives given (report cause span) fun _ => cause.severity ≠ .error :=
  .ofYields (fun _ => yields_report cause span) fun _ _ _ _ _ quiet => quiet

theorem sound_node (sound : given → basis.Holds (.mk shape span type)) :
    basis.Gives given (node shape span type) basis.Holds :=
  .ofYields (fun _ => yields_node _ _ _) fun given _ _ _ _ same => same ▸ sound given

theorem sound_errorNode {cause : Cause} (span : Span) (post : Typed.Expr → Prop) (severe : cause.severity = .error) :
    basis.Gives given (errorNode cause span) post :=
  .ofYields (fun _ => yields_errorNode span post severe) fun _ _ _ _ _ holds => holds

theorem sound_silentError (message : String) (span : Span) (impossible : ¬ given) :
    basis.Gives given (silentError message span) basis.Holds :=
  sound_node fun given => absurd given impossible

theorem sound_lookupSymbol (name : String) {next : Option SymbolId → Check β}
    {goesOn : SymbolId → Symbol → Check β} {post : β → Prop} (reads : ∀ id, next (some id) = getSymbol id >>= goesOn id)
    (unknown : basis.Gives given (next none) post)
    (found : ∀ id symbol, basis.Gives (given ∧ basis.Knows id symbol) (goesOn id symbol) post) :
    basis.Gives given (lookup name >>= next) post := by
  refine .ofState fun state => ?_
  have run : (lookup name >>= next) state = next (state.scopes.lookup name) state := rfl
  rw [run]
  cases lookedUp : state.scopes.lookup name with
  | none => exact ⟨_, _, rfl, unknown, fun given _ _ => given⟩
  | some id =>
    rw [reads]
    exact ⟨goesOn id (state.table.symbol id), _, rfl, found id _, fun given fits extended =>
      ⟨given, fits.knows extended (known_of_lookup fits lookedUp)⟩⟩

theorem lookupThis_apply (state : State) : ∃ this?, lookupThis state = (this?, state) ∧
    ∀ this, this? = some this → state.scopes.lookup "this" = some this := by
  have found : lookup "this" state = (state.scopes.lookup "this", state) := rfl
  unfold lookupThis
  rw [bind_apply, found]
  cases state.scopes.lookup "this" with
  | none => exact ⟨none, rfl, fun _ same => nomatch same⟩
  | some id =>
    have symbol : getSymbol id state = (state.table.symbol id, state) := rfl
    dsimp only
    rw [bind_apply, symbol]
    cases (state.table.symbol id).kind with
    | localVar => exact ⟨some id, rfl, fun _ same => same⟩
    | _ => exact ⟨none, rfl, fun _ same => nomatch same⟩

theorem sound_lookupThis (span : Span) {next : Option SymbolId → Check β} {goesOn : Typed.Expr → Check β}
    {post : β → Prop} (reads : ∀ this, next (some this) = thisNode this span >>= goesOn)
    (unknown : basis.Gives given (next none) post)
    (found : ∀ object, basis.Gives (given ∧ basis.Holds object) (goesOn object) post) :
    basis.Gives given (lookupThis >>= next) post := by
  refine .ofState fun state => ?_
  obtain ⟨this?, run, named⟩ := lookupThis_apply state
  rw [bind_apply, run]
  cases this? with
  | none => exact ⟨_, _, rfl, unknown, fun given _ _ => given⟩
  | some this =>
    have object : basis.Gives (given ∧ (state.table.symbol this).type.isBuilt = true)
        (node (.localVar this) span (state.table.symbol this).type) basis.Holds :=
      sound_node fun given => .leaf given.2 trivial rfl
    rw [reads]
    refine ⟨node (.localVar this) span (state.table.symbol this).type >>= goesOn, _, rfl,
      object.bind fun object => (found object).under fun given => ⟨given.1.1, given.2⟩, fun given fits _ => ⟨given, ?_⟩⟩
    exact (fits.symbol this (known_of_lookup fits (named this rfl))).built

theorem sound_coerceTo (sound : given → expected.isBuilt = true ∧ basis.Holds expr) :
    basis.Gives given (coerce expected expr) fun result => basis.Holds result ∧ expected.accepts result.type = true := by
  have self : expected.accepts expected = true := by
    unfold Ty.accepts
    simp
  unfold coerce
  dsimp only
  split
  case isTrue same =>
    refine .pure fun given => ⟨(sound given).2, ?_⟩
    rw [(sound given).2.isError, Ty.isError_of_isBuilt (sound given).1] at same
    rw [show expr.type = expected by simpa using same, self]
  split
  · exact sound_errorNode _ _ rfl
  case isFalse accepted =>
  have unchanged : basis.Gives given (Pure.pure expr) fun result =>
      basis.Holds result ∧ expected.accepts result.type = true :=
    .pure fun given => ⟨(sound given).2, by simpa using accepted⟩
  split
  · exact unchanged
  · refine .ofYields (fun _ => yields_node _ _ _) fun given _ _ _ _ same => same ▸ ⟨?_, self⟩
    exact .mk (sound given).1 trivial (sound given).2
  · exact unchanged

theorem sound_coerce (sound : given → expected.isBuilt = true ∧ basis.Holds expr) :
    basis.Gives given (coerce expected expr) basis.Holds :=
  (sound_coerceTo sound).mono id fun _ _ => And.left

theorem sound_coerceAll (sound : given → expected.isBuilt = true ∧ basis.HoldsAll exprs) :
    basis.Gives given (coerceAll expected exprs) basis.HoldsAll :=
  .mapM fun expr member => sound_coerce fun given => (sound given).imp_right fun holds => holds expr member

theorem sound_coerceEach {parameters : List Ty}
    (sound : given → (∀ type ∈ parameters, type.isBuilt = true) ∧ basis.HoldsAll arguments) :
    basis.Gives given (coerceEach parameters arguments) basis.HoldsAll := by
  induction parameters generalizing arguments with
  | nil => exact .pure fun _ => .nil
  | cons parameter parameters ih =>
    cases arguments with
    | nil => exact .pure fun _ => .nil
    | cons argument rest =>
      have first : given → parameter.isBuilt = true ∧ basis.Holds argument := fun given =>
        ⟨(sound given).1 _ List.mem_cons_self, (sound given).2 _ List.mem_cons_self⟩
      have others : given → (∀ type ∈ parameters, type.isBuilt = true) ∧ basis.HoldsAll rest := fun given =>
        ⟨(List.forall_mem_cons.mp (sound given).1).2, (List.forall_mem_cons.mp (sound given).2).2⟩
      exact (sound_coerce first).bind fun _ => ((ih others).under And.left).bind fun _ =>
        .pure fun given => List.forall_mem_cons.mpr ⟨given.1.2, given.2⟩

theorem sound_packArguments (span : Span)
    (sound : given → (∀ type ∈ function.parameterTypes, type.isBuilt = true) ∧ basis.HoldsAll arguments) :
    basis.Gives given (packArguments function arguments span) basis.HoldsAll := by
  unfold packArguments
  split
  · split
    · exact .pure fun _ => .nil
    · rename_i element last
      have built : given → element.isBuilt = true := fun given => (sound given).1 element (List.mem_of_getLast? last)
      refine (sound_coerceEach fun given => ⟨fun type member => ?_, (sound given).2⟩).bind fun first =>
        (sound_coerceAll fun given => ⟨built given.1, fun expr member => ?_⟩).bind fun elements =>
          (sound_node fun given => ?_).bind fun _ => .pure fun given => ?_
      · exact (sound given).1 type ((List.dropLast_sublist _).subset member)
      · exact (sound given.1).2 expr (List.mem_of_mem_drop member)
      · exact .mk (built given.1.1) trivial given.2.within
      · exact List.forall_mem_append.mpr ⟨given.1.1.2, List.forall_mem_singleton.mpr given.2⟩
  · exact sound_coerceEach sound

def Basis.HoldsCall (basis : Basis) (candidates : List FunctionInstance) :
    Except Typed.Expr (FunctionInstance × List Typed.Expr) → Prop
  | .error error => basis.Holds error
  | .ok (function, arguments) => function ∈ candidates ∧ basis.HoldsAll arguments

theorem sound_resolveCall (name : String) {candidates : List FunctionInstance} (span : Span)
    (sound : given → (∀ function ∈ candidates, ∀ type ∈ function.parameterTypes, type.isBuilt = true) ∧
      basis.HoldsAll arguments) :
    basis.Gives given (resolveCall name candidates arguments span) (basis.HoldsCall candidates) := by
  unfold resolveCall
  dsimp only
  split
  case h_1 function found =>
    have candidate := (List.mem_filter.mp (chosen_of_found found)).1
    exact (sound_packArguments span fun given => (sound given).imp_left fun built => built function candidate).bind
      fun _ => .pure fun given => ⟨candidate, given.2⟩
  case h_2 =>
    split
    case isTrue error =>
      have silent : ¬ given := fun given => by simp [(sound given).2.noError] at error
      exact (sound_silentError _ _ silent).bind fun _ => .pure fun given => given.2
    · exact (sound_errorNode _ basis.Holds rfl).bind fun _ => .pure fun given => given.2
  case h_3 => exact (sound_errorNode _ basis.Holds rfl).bind fun _ => .pure fun given => given.2

theorem built_promoted (built : type.isBuilt = true) : type.promoted.isBuilt = true := by
  unfold Ty.promoted
  split
  · rfl
  · exact built

theorem sound_binaryNode (operator : Syntax.BinaryOp) (span : Span) {left right : Typed.Expr}
    (sound : given → basis.Holds left ∧ basis.Holds right) :
    basis.Gives given (binaryNode operator span left right) basis.Holds := by
  unfold binaryNode
  split
  case isTrue error =>
    exact sound_silentError _ _ fun given => by simp [(sound given).1.isError, (sound given).2.isError] at error
  split
  · exact sound_errorNode _ _ rfl
  · refine sound_node fun given => .mk ?_ rfl (List.forall_mem_append.mpr (sound given))
    split
    · rfl
    · exact built_promoted (sound given).1.built

theorem sound_minusNode (span : Span) (holds : given → basis.Holds operand) :
    basis.Gives given (minusNode span operand) basis.Holds := by
  unfold minusNode
  split
  · rename_i promoted
    exact sound_node fun given => .mk rfl promoted.symm (holds given)
  · rename_i promoted
    exact sound_node fun given => .mk rfl promoted.symm (holds given)
  · exact .pure holds
  · exact sound_errorNode _ _ rfl

theorem sound_castNode (span : Span) (sound : given → basis.Holds operand ∧ target.isBuilt = true) :
    basis.Gives given (castNode span operand target) basis.Holds := by
  unfold castNode
  split
  · rename_i allowed
    exact sound_node fun given => .mk (sound given).2 allowed (sound given).1
  · exact sound_errorNode _ _ rfl

theorem sound_rangeNode (operator : Syntax.RangeOp) (span : Span) {start stop : Typed.Expr}
    (sound : given → basis.Holds start ∧ basis.Holds stop) :
    basis.Gives given (rangeNode operator span start stop) basis.Holds := by
  unfold rangeNode
  split
  case isTrue error => exact sound_silentError _ _ fun given => by simp [(sound given).1.isError] at error
  split
  · exact sound_errorNode _ _ rfl
  split
  case isTrue error => exact sound_silentError _ _ fun given => by simp [(sound given).2.isError] at error
  split
  · exact sound_errorNode _ _ rfl
  · exact sound_node fun given => .mk rfl trivial (List.forall_mem_append.mpr (sound given))

theorem built_branchType {first second : Ty} (one : first.isBuilt = true) (two : second.isBuilt = true)
    (found : branchType? first second = some type) : type.isBuilt = true := by
  unfold branchType? at found
  repeat' split at found
  all_goals cases found
  · exact one
  · exact two
  · exact Ty.isBuilt_orNull two
  · exact Ty.isBuilt_orNull one
  · exact one
  · exact two

theorem sound_conditionalNode (span : Span) {condition thenBranch elseBranch : Typed.Expr}
    (sound : given → basis.Holds condition ∧ basis.Holds thenBranch ∧ basis.Holds elseBranch) :
    basis.Gives given (conditionalNode span condition thenBranch elseBranch) basis.Holds := by
  unfold conditionalNode
  split
  case h_1 type found =>
    refine sound_node fun given => ?_
    obtain ⟨test, first, second⟩ := sound given
    exact .mk (built_branchType first.built second.built found) trivial
      (List.forall_mem_append.mpr ⟨test, List.forall_mem_append.mpr ⟨first, second⟩⟩)
  case h_2 => exact sound_errorNode _ _ rfl

theorem built_indexedType (built : type.isBuilt = true) (found : indexedType? type = some element) :
    element.isBuilt = true := by
  unfold indexedType? at found
  split at found
  · cases found
    exact built
  · cases found
    exact built
  · cases found
    rfl
  · cases found

theorem Basis.Holds.not_error (holds : basis.Holds expr) : expr.type ≠ .error := by
  intro error
  have proper := holds.isError
  rw [error] at proper
  cases proper

theorem sound_indexNode (span : Span) {array index : Typed.Expr} (sound : given → basis.Holds array ∧ basis.Holds index) :
    basis.Gives given (indexNode span array index) basis.Holds := by
  refine (sound_coerce fun given => ⟨rfl, (sound given).2⟩).bind fun coerced => ?_
  split
  case h_1 error => exact sound_silentError _ _ fun given => (sound given.1).1.not_error error
  case h_2 element found _ =>
    exact sound_node fun given => .mk (built_indexedType (sound given.1).1.built found) trivial
      (List.forall_mem_append.mpr ⟨(sound given.1).1, given.2⟩)
  · exact sound_errorNode _ _ rfl

theorem sound_accessError? (name : String) (span : Span) (holds : given → basis.Holds object) :
    basis.Gives given (accessError? object name span) fun error? => ∀ error, error? = some error → basis.Holds error := by
  have failed {check : Check Typed.Expr} (gives : basis.Gives given check basis.Holds) :
      basis.Gives given (do return some (← check)) fun error? => ∀ error, error? = some error → basis.Holds error :=
    gives.bind fun _ => .pure fun given _ same => Option.some.inj same ▸ given.2
  unfold accessError?
  split
  case h_1 error => exact failed (sound_silentError _ _ fun given => (holds given).not_error error)
  · exact failed (sound_errorNode _ _ rfl)
  · exact failed (sound_errorNode _ _ rfl)
  · exact failed (sound_errorNode _ _ rfl)
  · exact .pure fun _ _ same => nomatch same

theorem sound_classMember? (cls : ClassRef) (name : String) :
    basis.Gives given (classMember? cls name) fun found? => ∀ found, found? = some found → basis.Knows found.1 found.2 := by
  refine .ofYields (fun _ => yields_classMember? cls name) fun _ base fits extended found? looked found same => ?_
  obtain ⟨member, symbol⟩ := looked found same
  exact symbol ▸ fits.knows extended (fits.members cls.id (name, found.1) (mem_of_lookup member))

theorem sound_getEnum (id : EnumId) : basis.Gives given (getEnum id) fun declared =>
    declared.columns = basis.columns id ∧ ∀ column ∈ declared.columns, column.type.isBuilt = true := by
  refine .ofYields (fun _ => yields_getEnum id) fun _ base fits _ declared same => ?_
  rw [same, fits.columns]
  exact ⟨rfl, fits.columnTypes id⟩

theorem sound_memberNode (name : String) (span : Span) (holds : given → basis.Holds object) :
    basis.Gives given (memberNode object name span) basis.Holds := by
  have size : (∀ cls arguments, object.type ≠ .object cls arguments) → ∀ symbol,
      basis.Gives given (node (.member object symbol) span .int) basis.Holds := fun other symbol =>
    sound_node fun given => .mk rfl (fun cls arguments is => absurd is (other cls arguments)) (holds given)
  unfold memberNode
  dsimp only
  split
  case h_1 cls arguments objectType =>
    refine (sound_classMember? cls name).bind fun found => ?_
    split
    case h_1 id symbol =>
      have made : basis.Gives (given ∧ ∀ found, some (id, symbol) = some found → basis.Knows found.1 found.2)
          (node (.member object id) span (symbol.type.substitute object.type.bindings)) basis.Holds := by
        refine sound_node fun given => ?_
        have knows := given.2 _ rfl
        refine .mk (Ty.isBuilt_substitute (built_bindings (holds given.1).built) _ knows.built) (fun _ _ _ => .inr ?_)
          (holds given.1)
        rw [← knows.type]
      split
      · exact made
      · exact made
      · exact sound_errorNode _ _ rfl
      · exact sound_errorNode _ _ rfl
    case h_2 => exact sound_errorNode _ _ rfl
  case h_2 objectType =>
    split
    · exact sound_get.andThen fun _ => size (by simp [objectType]) _
    · exact sound_errorNode _ _ rfl
  case h_3 objectType =>
    split
    · exact sound_get.andThen fun _ => size (by simp [objectType]) _
    · exact sound_errorNode _ _ rfl
  case h_4 =>
    split
    · exact sound_node fun _ => .leaf rfl rfl rfl
    · exact sound_errorNode _ _ rfl
  case h_5 enum _ =>
    refine (sound_getEnum _).bind fun declared => ?_
    split
    case h_1 column found =>
      refine sound_node fun given => ?_
      obtain ⟨bound, _⟩ := List.findIdx?_eq_some_iff_getElem.mp found
      refine .mk ?_ (given.2.1 ▸ bound) (holds given.1)
      rw [List.getElem?_eq_getElem bound]
      exact given.2.2 _ (List.getElem_mem bound)
    case h_2 => exact sound_errorNode _ _ rfl
  case h_6 => exact sound_errorNode _ _ rfl

theorem sound_checkMember (name : String) (span : Span) (holds : given → basis.Holds object) :
    basis.Gives given (checkMember object name span) basis.Holds := by
  refine (sound_accessError? name span holds).bind fun error? => ?_
  split
  · exact .pure fun given => given.2 _ rfl
  · exact sound_memberNode name span fun given => holds given.1

theorem sound_enumValue? (enumName name : String) (span : Span) :
    basis.Gives given (enumValue? enumName name span) fun value? => ∀ value, value? = some value → basis.Holds value := by
  refine .ofYields (fun _ => yields_enumValue? enumName name span) fun _ base fits _ value? found value same => ?_
  obtain ⟨scope, id, word, type, member, kind, rfl⟩ := found value same
  have counted := (fits.symbol id (fits.bound scope _ member)).constant word type kind
  exact .leaf (Ty.isBuilt_of_isCounted counted) counted rfl

theorem sound_checkLiteral (span : Span) (value : Syntax.Literal) :
    basis.Gives given (checkLiteral span value) basis.Holds := by
  unfold checkLiteral
  split <;> exact sound_node fun _ => .leaf rfl rfl rfl

theorem built_typeOf {facts : Facts Ty} (built : BuiltFacts facts) (id : SymbolId) {declared : Ty}
    (otherwise : declared.isBuilt = true) : (facts.typeOf id declared).isBuilt = true := by
  unfold Facts.typeOf NatMap.get?
  cases found : facts.narrowed.entries.lookup id with
  | none => exact otherwise
  | some type => exact built (id, type) (mem_of_lookup found)

theorem holds_variable (id : SymbolId) (symbol : Symbol) (span : Span) (built : type.isBuilt = true) :
    basis.Holds (.mk (variableShape id symbol) span type) := by
  unfold variableShape
  split <;> exact .leaf built trivial rfl

theorem sound_readVariable (id : SymbolId) (span : Span) (maybeFreed : Bool)
    (built : given → symbol.type.isBuilt = true) :
    basis.Gives given (readVariable id symbol span maybeFreed) basis.Holds := by
  refine .ofYields (fun _ => yields_readVariable id symbol span maybeFreed) fun given _ fits _ expr read => ?_
  obtain ⟨type, shape⟩ := read
  have narrowed := built_typeOf fits.facts id (built given)
  rw [← type] at narrowed
  obtain ⟨_, own, _⟩ := expr
  rcases shape with rfl | ⟨inner, rfl⟩
  · exact holds_variable id symbol own narrowed
  · exact .mk narrowed trivial (holds_variable id symbol inner (built given))

theorem functionType_built (fits : basis.FitsInstance function) : (functionType function).isBuilt = true := by
  simp [functionType, Ty.isBuilt, (Ty.allBuilt_iff _).mpr fits.parameters, fits.result]

theorem sound_functionValue (id : SymbolId) (name : String) (span : Span)
    (fits : given → ∀ function ∈ overloads, basis.FitsInstance function) :
    basis.Gives given (functionValue id name span overloads) basis.Holds := by
  unfold functionValue
  split
  case h_1 function =>
    refine Basis.Gives.andThen (.marking fun _ => yields_getFunction _) fun _ => ?_
    split
    · exact sound_errorNode _ _ rfl
    · refine sound_node fun given => ?_
      have fitting := fits given function List.mem_cons_self
      exact .leaf (functionType_built fitting) fitting.known rfl
  case h_2 => exact sound_errorNode _ _ rfl

theorem sound_ownField (span : Span) (knows : given → basis.Knows id symbol) :
    basis.Gives given (ownField id symbol span) basis.Holds :=
  sound_lookupThis span (fun _ => rfl) (sound_errorNode _ _ rfl) fun _ => sound_node fun given =>
    .mk (knows given.1).built (fun _ _ _ => .inl (knows given.1).type) given.2

theorem sound_constantNode (span : Span) {value : Constant}
    (counted : given → ∀ word type, value = .int word type → type.isCounted = true) :
    basis.Gives given (constantNode span value) basis.Holds := by
  unfold constantNode
  split
  case h_1 word type =>
    refine sound_node fun given => ?_
    have counted := counted given word type rfl
    exact .leaf (Ty.isBuilt_of_isCounted counted) counted rfl
  case h_2 => exact sound_node fun _ => .leaf rfl rfl rfl
  case h_3 => exact sound_node fun _ => .leaf rfl rfl rfl

theorem sound_checkName (name : String) (span : Span) (maybeFreed : Bool) :
    basis.Gives given (checkName name span maybeFreed) basis.Holds := by
  refine sound_lookupSymbol name (fun _ => rfl) (sound_errorNode _ _ rfl) fun id symbol => ?_
  have read : basis.Gives (given ∧ basis.Knows id symbol) (readVariable id symbol span maybeFreed) basis.Holds :=
    sound_readVariable id span maybeFreed fun given => given.2.built
  have own : basis.Gives (given ∧ basis.Knows id symbol) (ownField id symbol span) basis.Holds :=
    sound_ownField span And.right
  cases kind : symbol.kind with
  | localVar => exact read
  | globalVar offset => exact read
  | constant value =>
    exact sound_constantNode span fun given word type same => given.2.constant word type (same ▸ kind)
  | function overloads => exact sound_functionValue id name span fun given => given.2.overloads overloads kind
  | field owner offset => exact own
  | inlineField owner offset => exact own
  | typeName => exact sound_errorNode _ _ rfl

theorem sound_callValue {callee : Typed.Expr} (span : Span)
    (sound : given → basis.Holds callee ∧ basis.HoldsAll arguments) :
    basis.Gives given (callValue callee arguments span) basis.Holds := by
  unfold callValue
  split
  case h_1 parameters result isVararg type =>
    have built : given → (∀ type ∈ parameters, type.isBuilt = true) ∧ result.isBuilt = true := by
      intro given
      have built := (sound given).1.built
      rwa [type, Ty.isBuilt, Bool.and_eq_true, Ty.allBuilt_iff] at built
    refine (sound_resolveCall _ span fun given => ⟨List.forall_mem_singleton.mpr (built given).1, (sound given).2⟩).bind
      fun resolved => ?_
    split
    · exact .pure fun given => given.2
    · exact sound_node fun given => .mk (built given.1).2 trivial
        (List.forall_mem_append.mpr ⟨(sound given.1).1, Basis.HoldsAll.within given.2.2⟩)
  case h_2 => exact .pure fun given => (sound given).1
  case h_3 => exact sound_errorNode _ _ rfl

theorem sound_callFunction (symbol : SymbolId) (name : String) (nameSpan span : Span)
    (sound : given → (∀ function ∈ overloads, basis.FitsInstance function) ∧ basis.HoldsAll arguments) :
    basis.Gives given (callFunction symbol name overloads arguments nameSpan span) basis.Holds := by
  refine (sound_resolveCall name span fun given => (sound given).imp_left fun fits function member =>
    (fits function member).parameters).bind fun resolved => ?_
  split
  · exact .pure fun given => given.2
  rename_i function packed
  refine Basis.Gives.andThen (.marking fun _ => yields_getFunction _) fun _ => ?_
  have fitting : given → function ∈ overloads → basis.FitsInstance function := fun given => (sound given).1 function
  split
  · refine sound_lookupThis nameSpan (fun _ => rfl) (sound_errorNode _ _ rfl) fun object => sound_node fun given => ?_
    have found := fitting given.1.1 given.1.2.1
    exact .mk found.result found.known (List.forall_mem_append.mpr ⟨given.2, Basis.HoldsAll.within given.1.2.2⟩)
  · refine (sound_node fun given => ?_).bind fun callee => sound_node fun given => ?_
    · have found := fitting given.1 given.2.1
      exact .leaf (functionType_built found) found.known rfl
    · exact .mk (fitting given.1.1 given.1.2.1).result trivial
        (List.forall_mem_append.mpr ⟨given.2, Basis.HoldsAll.within given.1.2.2⟩)

theorem sound_methods? (type : Ty) (name : String) :
    basis.Gives given (methods? type name) fun found => ∀ methods, found = some methods →
      ∀ function ∈ methods, basis.FitsInstance function := by
  have nothing {given : Prop} : basis.Gives given (Pure.pure none) fun found => ∀ methods : List FunctionInstance,
      found = some methods → ∀ function ∈ methods, basis.FitsInstance function := .pure fun _ _ same => nomatch same
  unfold methods?
  split
  · refine (sound_classMember? _ _).bind fun member => ?_
    split
    case h_1 id symbol =>
      split
      case h_1 overloads kind =>
        exact .pure fun given methods same => Option.some.inj same ▸ (given.2 _ rfl).overloads overloads kind
      case h_2 => exact nothing
    case h_2 => exact nothing
  · exact nothing

theorem callMember_sound (name : String) (memberSpan span : Span) (holds : given → basis.Holds object)
    (gives : basis.Gives given checkArguments basis.HoldsAll) :
    basis.Gives given (callMember object name memberSpan span checkArguments) basis.Holds := by
  refine (sound_accessError? name memberSpan holds).bind fun error? => (gives.under And.left).bind fun arguments => ?_
  split
  · exact .pure fun given => given.1.2 _ rfl
  refine (sound_methods? object.type name).bind fun methods? => ?_
  split
  · exact (sound_memberNode name memberSpan fun given => holds given.1.1.1).bind fun callee =>
      sound_callValue span fun given => ⟨given.2, given.1.1.2⟩
  · rename_i methods
    have candidates : given → (∀ found, some methods = some found → ∀ function ∈ found, basis.FitsInstance function) →
        ∀ function ∈ methods.map (·.mapType object.type.bindings), basis.FitsInstance function := by
      intro given fitting function member
      obtain ⟨method, inside, rfl⟩ := List.mem_map.mp member
      exact (fitting methods rfl method inside).mapType (built_bindings (holds given).built)
    refine (sound_resolveCall _ _ fun given => ⟨fun function member =>
      (candidates given.1.1.1 given.2 function member).parameters, given.1.2⟩).bind fun resolved => ?_
    split
    · exact .pure fun given => given.2
    · refine sound_node fun given => ?_
      have found := candidates given.1.1.1.1 given.1.2 _ given.2.1
      exact .mk found.result found.known (List.forall_mem_append.mpr
        ⟨holds given.1.1.1.1, Basis.HoldsAll.within given.2.2⟩)

def BuiltBindings (bindings : Substitution) : Prop :=
  ∀ binding ∈ bindings, binding.2.isBuilt = true

theorem BuiltBindings.bindOnce {bindings : Substitution} (built : BuiltBindings bindings) (key : Ty) {value : Ty}
    (given : value.isBuilt = true) : BuiltBindings (Analysis.bindOnce bindings key value) := by
  unfold Analysis.bindOnce
  split
  · exact built
  · exact List.forall_mem_append.mpr ⟨built, List.forall_mem_singleton.mpr given⟩

mutual

theorem BuiltBindings.unify {bindings : Substitution} (built : BuiltBindings bindings) (parameter argument : Ty)
    (given : argument.isBuilt = true) : BuiltBindings (Analysis.unify bindings parameter argument) := by
  have inner : ∀ {type : Ty}, (Ty.nullable type).isBuilt = true ∨ (Ty.errorUnion type).isBuilt = true →
      type.isBuilt = true := by
    intro type outer
    rcases outer with outer | outer <;> exact (Bool.and_eq_true_iff.mp outer).1
  cases parameter with
  | parameter name classId index => exact built.bindOnce _ given
  | array parameter =>
    cases argument with
    | array argument => exact built.unify parameter argument given
    | inlineArray argument count => exact built.unify parameter argument given
    | _ => exact built
  | range parameter =>
    cases argument with
    | range argument => exact built.unify parameter argument given
    | _ => exact built
  | nullable parameter =>
    cases argument with
    | nullable argument => exact built.unify parameter argument (inner (.inl given))
    | _ => exact built.unify parameter _ given
  | errorUnion parameter =>
    cases argument with
    | errorUnion argument => exact built.unify parameter argument (inner (.inr given))
    | _ => exact built.unify parameter _ given
  | object cls parameters =>
    cases argument with
    | object other arguments =>
      rw [Analysis.unify]
      split
      · exact built.unifyAll parameters arguments ((Ty.allBuilt_iff _).mp given)
      · exact built
    | _ => exact built
  | _ => exact built

theorem BuiltBindings.unifyAll {bindings : Substitution} (built : BuiltBindings bindings) (parameters arguments : List Ty)
    (given : ∀ type ∈ arguments, type.isBuilt = true) :
    BuiltBindings (Analysis.unifyAll bindings parameters arguments) := by
  cases parameters with
  | nil => exact built
  | cons parameter parameters =>
    cases arguments with
    | nil => exact built
    | cons argument arguments =>
      obtain ⟨first, others⟩ := List.forall_mem_cons.mp given
      exact (built.unify parameter argument first).unifyAll parameters arguments others

end

theorem built_parameterTypes (fits : basis.Fits base) (id : FunctionId) :
    ∀ type ∈ base.table.parameterTypes (base.table.function id), type.isBuilt = true := by
  have declared : ∀ type ∈ (base.table.function id).parameters.map fun id => (base.table.symbol id).type,
      type.isBuilt = true := by
    intro type member
    obtain ⟨parameter, inside, rfl⟩ := List.mem_map.mp member
    exact (fits.symbol parameter (fits.parameters id parameter (List.mem_append_right _ inside))).built
  intro type member
  unfold Declarations.parameterTypes at member
  split at member
  · obtain ⟨index, bound, rfl⟩ := List.mem_iff_getElem.mp member
    rw [List.length_modify] at bound
    have inside := declared _ (List.getElem_mem bound)
    rw [List.getElem_modify]
    split
    · cases elements : Ty.element? _ with
      | none => exact inside
      | some element => exact Ty.isBuilt_element inside elements
    · exact inside
  · exact declared type member

theorem fits_instantiate (fits : basis.Fits base) (extended : base.table.Extends basis.table) {id : FunctionId}
    (known : id < base.table.functions.size) : basis.FitsInstance (base.table.instantiate id []) where
  known := Nat.lt_of_lt_of_le known extended.functions
  parameters := (Ty.allBuilt_iff _).mp (Ty.allBuilt_substitute (by simp) _
    ((Ty.allBuilt_iff _).mpr (built_parameterTypes fits id)))
  result := Ty.isBuilt_substitute (by simp) _ (fits.result id known)

def Basis.HoldsFill (basis : Basis) (fill : Typed.Fill) : Prop :=
  ∀ node ∈ fill.within, basis.Sound node

section

theorem createObject_sound {cls : ClassRef} {typeArguments : List Ty} (onStack : Bool) (span : Span)
    (type : given → (Ty.object cls typeArguments).isBuilt = true)
    (gives : basis.Gives given checkArguments basis.HoldsAll) :
    basis.Gives given (createObject cls typeArguments onStack span checkArguments) basis.Holds := by
  have declared : basis.Gives given (getClass cls.id) fun declared => ∀ function, declared.constructor? = some function →
      function < basis.table.functions.size :=
    .ofYields (fun _ => yields_getClass _) fun _ _ fits _ _ same => same ▸ fits.constructor cls.id
  refine declared.bind fun declared => ?_
  split
  · exact sound_errorNode _ _ rfl
  rename_i constructor made
  refine (gives.under And.left).bind fun arguments => sound_state.bind fun state => ?_
  extract_lets generic bindings
  have built : given → basis.HoldsAll arguments → BuiltBindings bindings := by
    intro given holds
    show BuiltBindings (if _ then _ else _)
    split
    · exact BuiltBindings.unifyAll (by simp [BuiltBindings]) _ _ holds.built
    · exact built_bindings (type given)
  have parameters : basis.Fits state → BuiltBindings bindings →
      ∀ type ∈ (generic.mapType bindings).parameterTypes, type.isBuilt = true := by
    intro fits bindings
    refine (Ty.allBuilt_iff _).mp (Ty.allBuilt_substitute bindings _ (Ty.allBuilt_substitute (by simp) _ ?_))
    exact (Ty.allBuilt_iff _).mpr (built_parameterTypes fits constructor)
  refine (sound_resolveCall _ _ fun given => ⟨List.forall_mem_singleton.mpr
    (parameters given.2.1 (built given.1.1.1 given.1.2)), given.1.2⟩).bind fun resolved => ?_
  split
  · exact .pure fun given => given.2
  · refine sound_node fun given => .mk (Ty.isBuilt_substitute (built given.1.1.1.1 given.1.1.2) _ (type given.1.1.1.1))
      (given.1.1.1.2 constructor made) (Basis.HoldsAll.within given.2.2)

theorem createArray_sound (onStack : Bool) (span : Span)
    {fill : Check Typed.Fill} (sound : given → element.isBuilt = true ∧ basis.HoldsAll arguments)
    (gives : basis.Gives given fill basis.HoldsFill) :
    basis.Gives given (createArray element onStack span arguments fill) basis.Holds := by
  unfold createArray
  split
  · refine (sound_coerce fun given => ⟨rfl, (sound given).2 _ List.mem_cons_self⟩).bind fun size =>
      (gives.under And.left).bind fun filled => sound_node fun given => ?_
    exact .mk (sound given.1.1).1 trivial (List.forall_mem_append.mpr ⟨given.1.2, given.2⟩)
  · exact sound_errorNode _ _ rfl

theorem createNode_sound (onStack : Bool) (span : Span) {fill : Ty → Check Typed.Fill}
    (built : given → type.isBuilt = true) (gives : basis.Gives given checkArguments basis.HoldsAll)
    (filled : ∀ element, basis.Gives (given ∧ element.isBuilt = true) (fill element) basis.HoldsFill) :
    basis.Gives given (createNode type onStack span checkArguments fill) basis.Holds := by
  unfold createNode
  split
  · exact gives.andThen fun _ => sound_node fun given => absurd (built given) (by simp [Ty.isBuilt])
  · rename_i element
    exact gives.bind fun arguments => createArray_sound _ _ (fun given => ⟨built given.1, given.2⟩)
      ((filled element).under fun given => ⟨given.1, built given.1⟩)
  · exact createObject_sound _ _ built gives
  · exact sound_errorNode _ _ rfl

end

theorem sound_createListNode {elements : List Typed.Expr} (onStack : Bool) (span : Span)
    (sound : given → type.isBuilt = true ∧ basis.HoldsAll elements) :
    basis.Gives given (createListNode type elements onStack span) basis.Holds := by
  unfold createListNode
  split
  · rename_i element
    have built : given → element.isBuilt = true ∧ basis.HoldsAll elements := sound
    refine (sound_coerceAll built).bind fun _ => sound_node fun given => ?_
    exact .mk (sound given.1).1 trivial given.2.within
  · exact sound_silentError _ _ fun given => nomatch (sound given).1
  · exact sound_errorNode _ _ rfl

end

end Analysis

end FplCompiler
