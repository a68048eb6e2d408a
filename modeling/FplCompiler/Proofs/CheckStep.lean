import FplCompiler.Analysis.State
import FplCompiler.Proofs.Scoping

/-!
What the steps of an analysis leave alone. Some only mark the state: they report causes and count nodes. The checks of
bodies also declare symbols, but no functions and classes.
-/

namespace FplCompiler.Analysis

variable {α α : Type} {state base between : State}

namespace Context

def breaks (context : Context) : List (Facts Ty) :=
  (context.frame.getD {}).breaks

def continues (context : Context) : List (Facts Ty) :=
  (context.frame.getD {}).continues

end Context

namespace State

def Accepted (state : State) : Prop :=
  ∀ diagnostic ∈ state.diagnostics.toList, diagnostic.isError = false

def registry (state : State) :=
  (state.fileScopes, state.foundFunctions, state.foundClasses, state.foundEnums, state.functionAt,
    state.constructorScopes, state.fieldStatements, state.table.classes, state.table.functions, state.topFunction)

end State

structure Grows (before after : State) : Prop where
  accepted : after.Accepted → before.Accepted
  table : before.table.Extends after.table
  registry : after.registry = before.registry

structure Marked (before after : State) : Prop where
  accepted : after.Accepted → before.Accepted
  table : after.table = before.table
  scopes : after.scopes = before.scopes
  facts : after.facts = before.facts
  context : after.context = before.context
  registry : after.registry = before.registry

namespace Marked

variable {before after : State}

theorem refl (state : State) : Marked state state :=
  ⟨id, rfl, rfl, rfl, rfl, rfl⟩

theorem trans (first : Marked before between) (second : Marked between after) :
    Marked before after where
  accepted := first.accepted ∘ second.accepted
  table := second.table.trans first.table
  scopes := second.scopes.trans first.scopes
  facts := second.facts.trans first.facts
  context := second.context.trans first.context
  registry := second.registry.trans first.registry

theorem grows (marked : Marked before after) : Grows before after where
  accepted := marked.accepted
  table := by rw [marked.table]; exact .refl _
  registry := marked.registry

end Marked

theorem Check.bind_apply {β : Type} (first : Check α) (next : α → Check β) (state : State) :
    (first >>= next) state = next (first state).1 (first state).2 :=
  rfl

theorem Check.get_apply (state : State) : (get : Check State) state = (state, state) :=
  rfl

def Yields {α : Type} (base : State) (step : Check α) (post : α → Prop) : Prop :=
  ∀ state, Marked base state → Marked state (step state).2 ∧ ((step state).2.Accepted → post (step state).1)

namespace Yields

variable {α β : Type} {post : α → Prop} {step first : Check α} {next : α → Check β} {last : β → Prop}

theorem mono {weaker : α → Prop} (yields : Yields base step post)
    (implied : ∀ result, post result → weaker result) : Yields base step weaker := fun state marked =>
  ⟨(yields state marked).1, fun accepted => implied _ ((yields state marked).2 accepted)⟩

theorem pure {result : α} (holds : post result) :
    Yields base (Pure.pure result : Check α) post := fun state _ =>
  ⟨.refl state, fun _ => holds⟩

theorem marks (marked : ∀ state, Marked state (step state).2) : Yields base step fun _ => True :=
  fun state _ => ⟨marked state, fun _ => trivial⟩

theorem read {view : State → α} (reads : ∀ state, step state = (view state, state))
    (same : ∀ state, Marked base state → view state = view base) : Yields base step (· = view base) := by
  intro state marked
  rw [reads]
  exact ⟨.refl state, fun _ => same state marked⟩

theorem bind
    (begins : Yields base first post) (goesOn : ∀ result, Yields base (next result) fun ended => post result → last ended) :
    Yields base (first >>= next) last := by
  intro state marked
  have one := begins state marked
  have two := goesOn (first state).1 (first state).2 (marked.trans one.1)
  exact ⟨one.1.trans two.1, fun accepted => two.2 accepted (one.2 (two.1.accepted accepted))⟩

theorem andThen (begins : Yields base first post) (goesOn : ∀ result, Yields base (next result) last) :
    Yields base (first >>= next) last :=
  begins.bind fun result => (goesOn result).mono fun _ holds _ => holds

theorem marked (yields : Yields state step post) :
    Marked state (step state).2 :=
  (yields state (.refl state)).1

theorem holds (yields : Yields state step post) (accepted : (step state).2.Accepted) : post (step state).1 :=
  (yields state (.refl state)).2 accepted

end Yields

def Steps {α : Type} (check : Check α) : Prop :=
  ∀ state, Grows state (check state).2

theorem Steps.ofYields {check : Check α} {post : State → α → Prop}
    (yields : ∀ state, Yields state check (post state)) : Steps check :=
  fun state => (yields state).marked.grows

theorem Check.forM_keeps {items : List α} {check : α → Check PUnit} {Kept : State → Prop}
    (each : ∀ item ∈ items, ∀ state, Kept state → Kept (check item state).2) (start : Kept state) :
    Kept (items.forM check state).2 := by
  induction items generalizing state with
  | nil => exact start
  | cons item rest ih =>
    exact ih (fun item member => each item (List.mem_cons_of_mem _ member)) (each item List.mem_cons_self state start)

section

open Check

variable {cause : Cause} {span : Span}

theorem accepted_report (accepted : (report cause span state).2.Accepted) :
    state.Accepted ∧ cause.severity ≠ .error := by
  have all : ∀ diagnostic ∈ state.diagnostics.toList ++ [⟨cause, span⟩], diagnostic.isError = false := by
    rw [← Array.toList_push]
    exact accepted
  refine ⟨fun diagnostic member => all diagnostic (List.mem_append_left _ member), ?_⟩
  have quiet := all ⟨cause, span⟩ (by simp)
  simpa [Diagnostic.isError] using quiet

theorem yields_report (cause : Cause) (span : Span) :
    Yields base (report cause span) fun _ => cause.severity ≠ .error := fun _ _ =>
  ⟨⟨fun accepted => (accepted_report accepted).1, rfl, rfl, rfl, rfl, rfl⟩, fun accepted => (accepted_report accepted).2⟩

theorem yields_reportIf {given : Prop} [Decidable given]
    {next : Unit → Check α} (post : α → Prop) (after : ∀ reported, Yields base (next reported) post) :
    Yields base (if given then report cause span >>= next else next ()) fun result =>
      post result ∧ (given → cause.severity ≠ .error) := by
  split
  case isTrue => exact (yields_report cause span).bind fun _ => (after _).mono fun _ holds quiet => ⟨holds, fun _ => quiet⟩
  case isFalse absent => exact (after ()).mono fun _ holds => ⟨holds, fun given => absurd given absent⟩

theorem yields_reportEither {given otherwise : Prop} [Decidable given] [Decidable otherwise]
    {first second : Cause} {next : Unit → Check α} (post : α → Prop)
    (after : ∀ reported, Yields base (next reported) post) :
    Yields base (if given then report first span >>= next
        else if otherwise then report second span >>= next else next ()) fun result =>
      post result ∧ (given → first.severity ≠ .error) ∧ (¬ given → otherwise → second.severity ≠ .error) := by
  split
  case isTrue holds =>
    exact (yields_report first span).bind fun _ => (after _).mono fun _ after quiet =>
      ⟨after, fun _ => quiet, fun absent => absurd holds absent⟩
  case isFalse absent =>
    exact (yields_reportIf post after).mono fun _ both => ⟨both.1, fun given => absurd given absent, fun _ => both.2⟩

theorem yields_lookup (name : String) : Yields base (lookup name) (· = base.scopes.lookup name) :=
  .read (fun _ => rfl) fun _ marked => by rw [marked.scopes]

theorem yields_getSymbol (id : SymbolId) : Yields base (getSymbol id) (· = base.table.symbol id) :=
  .read (fun _ => rfl) fun _ marked => by rw [marked.table]

theorem yields_getClass (id : ClassId) : Yields base (getClass id) (· = base.table.classDef id) :=
  .read (fun _ => rfl) fun _ marked => by rw [marked.table]

theorem yields_getFunction (id : FunctionId) : Yields base (getFunction id) (· = base.table.function id) :=
  .read (fun _ => rfl) fun _ marked => by rw [marked.table]

theorem yields_getEnum (id : EnumId) : Yields base (getEnum id) (· = base.table.enumDef id) :=
  .read (fun _ => rfl) fun _ marked => by rw [marked.table]

theorem yields_getFacts : Yields base getFacts (· = base.facts) :=
  .read (fun _ => rfl) fun _ marked => marked.facts

theorem yields_getContext : Yields base getContext (· = base.context) :=
  .read (fun _ => rfl) fun _ marked => marked.context

theorem yields_get : Yields base get fun _ => True :=
  .marks .refl

theorem yields_node (shape : Typed.ExprShape) (span : Span) (type : Ty) :
    Yields base (node shape span type) (· = .mk shape span type) := fun _ _ =>
  ⟨⟨id, rfl, rfl, rfl, rfl, rfl⟩, fun _ => rfl⟩

theorem yields_silentError (message : String) (span : Span) :
    Yields base (silentError message span) (· = .mk (.error message) span .error) :=
  yields_node _ _ _

theorem yields_errorNode (span : Span) (post : Typed.Expr → Prop) (severe : cause.severity = .error) :
    Yields base (errorNode cause span) post :=
  (yields_report cause span).bind fun _ =>
    (yields_silentError cause.message span).mono fun _ _ quiet => absurd severe quiet

def BindsIn (tree : ScopeTree) (home scope : ScopeId) : Prop :=
  scope = home ∨ (scope = ScopeTree.global ∧ (tree.scope home).kind = .file)

structure Rebound (homes : ScopeId → Prop) (name : String) (symbol : SymbolId) (before after : State) : Prop where
  scopes : before.scopes.Adds after.scopes homes name symbol
  table : after.table = before.table
  facts : after.facts = before.facts
  context : after.context = before.context
  registry : after.registry = before.registry
  accepted : after.Accepted → before.Accepted

namespace Rebound

variable {homes wider : ScopeId → Prop} {name : String} {symbol : SymbolId} {before after : State}

theorem ofMarked (marked : Marked before after) : Rebound homes name symbol before after where
  scopes := by rw [marked.scopes]; exact .refl _ _ _ _
  table := marked.table
  facts := marked.facts
  context := marked.context
  registry := marked.registry
  accepted := marked.accepted

theorem trans (first : Rebound homes name symbol before between) (second : Rebound homes name symbol between after) :
    Rebound homes name symbol before after where
  scopes := first.scopes.trans second.scopes
  table := second.table.trans first.table
  facts := second.facts.trans first.facts
  context := second.context.trans first.context
  registry := second.registry.trans first.registry
  accepted := first.accepted ∘ second.accepted

theorem mono (rebound : Rebound homes name symbol before after) (within : ∀ id, homes id → wider id) :
    Rebound wider name symbol before after :=
  { rebound with scopes := rebound.scopes.mono within }

end Rebound

theorem bindIn_rebound (scope : ScopeId) (name : String) (symbol : SymbolId) (state : State) :
    Rebound (· = scope) name symbol state (bindIn scope name symbol state).2 := by
  simp only [bindIn, bind_apply, get_apply]
  cases defined : state.scopes.defineIn scope name symbol with
  | error existing => exact .ofMarked (.refl state)
  | ok scopes => exact ⟨ScopeTree.defineIn_adds defined, rfl, rfl, rfl, rfl, id⟩

theorem yields_reportDuplicate (name : String) (span previousSpan : Span) :
    Yields base (reportDuplicate name span previousSpan) fun _ => False :=
  yields_get.andThen fun _ => (yields_report _ _).mono fun _ quiet => quiet rfl

def State.withSymbol (state : State) (symbol : Symbol) : State :=
  { state with table := (state.table.addSymbol symbol).2 }

structure Declares (home : ScopeId) (symbol : Symbol) (before after : State) : Prop extends
  Rebound (BindsIn before.scopes home) symbol.name before.table.symbols.size (before.withSymbol symbol) after

def bindNew (home : ScopeId) (symbol : Symbol) (id : SymbolId) : Check SymbolId := do
  match ← bindIn home symbol.name id with
  | .ok _ =>
    if ((← get).scopes.scope home).kind = .file then
      let _ ← bindIn ScopeTree.global symbol.name id
  | .error existing => reportDuplicate symbol.name symbol.span (← getSymbol existing).span
  return id

theorem defineIn_declares (home : ScopeId) (symbol : Symbol) (state : State) :
    (defineIn home symbol state).1 = state.table.symbols.size ∧
      Declares home symbol state (defineIn home symbol state).2 := by
  have first : Rebound (BindsIn state.scopes home) symbol.name state.table.symbols.size (state.withSymbol symbol)
      (bindIn home symbol.name state.table.symbols.size (state.withSymbol symbol)).2 :=
    (bindIn_rebound home symbol.name state.table.symbols.size (state.withSymbol symbol)).mono fun _ same => .inl same
  have run : defineIn home symbol state = bindNew home symbol state.table.symbols.size (state.withSymbol symbol) := rfl
  rw [run, bindNew, bind_apply]
  revert first
  generalize bindIn home symbol.name state.table.symbols.size (state.withSymbol symbol) = bound
  intro first
  obtain ⟨outcome, after⟩ := bound
  cases outcome with
  | error existing =>
    exact ⟨rfl, ⟨first.trans (.ofMarked (yields_reportDuplicate symbol.name symbol.span _).marked)⟩⟩
  | ok _ =>
    dsimp only
    rw [bind_apply]
    split
    case isTrue isFile =>
      refine ⟨rfl, ⟨first.trans ((bindIn_rebound ScopeTree.global _ _ after).mono fun _ same => ?_)⟩⟩
      refine .inr ⟨same, ?_⟩
      exact (first.scopes.kind home).symm.trans isFile
    case isFalse => exact ⟨rfl, ⟨first⟩⟩

namespace Declares

variable {home : ScopeId} {symbol : Symbol} {before after : State}

theorem extendsTable (declares : Declares home symbol before after) : before.table.Extends after.table := by
  rw [declares.table]
  exact before.table.addSymbol_extends symbol

theorem grows (declares : Declares home symbol before after) : Grows before after :=
  ⟨declares.accepted, declares.extendsTable, declares.registry⟩

end Declares

theorem steps_node (shape : Typed.ExprShape) (span : Span) (type : Ty) : Steps (node shape span type) :=
  .ofYields fun _ => yields_node shape span type

theorem steps_getSymbol (id : SymbolId) : Steps (getSymbol id) :=
  .ofYields fun _ => yields_getSymbol id

theorem steps_define (symbol : Symbol) : Steps (define symbol) :=
  fun state => (defineIn_declares state.scopes.current symbol state).2.grows

end

end FplCompiler.Analysis
