import FplCompiler.Proofs.SoundNodes

/-!
All nodes of a checked expression are sound, and so are those of conditions, whatever is known where they stand.
-/

namespace FplCompiler.Analysis

open Check

section

variable {basis : Basis} {base : State} {given : Prop} {facts : Facts Ty} {check : Check Typed.Expr} {context : Context}
  {right left : ExprCheck} {target type : Ty} {arguments : List ExprCheck} {value : Option Typed.Expr} {symbol : Symbol}
  {test : Typed.Expr} {name : String}

theorem BuiltFacts.narrow (built : BuiltFacts facts) (symbol : SymbolId)
    (narrowed : type.isBuilt = true) : BuiltFacts (facts.narrow symbol type) := by
  have inserted : ∀ entries : List (Nat × Ty), (∀ entry ∈ entries, entry.2.isBuilt = true) →
      ∀ entry ∈ NatMap.insertEntry symbol type entries, entry.2.isBuilt = true := by
    intro entries built
    induction entries with
    | nil => exact List.forall_mem_singleton.mpr narrowed
    | cons first rest ih =>
      obtain ⟨here, later⟩ := List.forall_mem_cons.mp built
      unfold NatMap.insertEntry
      split
      · exact List.forall_mem_cons.mpr ⟨narrowed, built⟩
      · split
        · exact List.forall_mem_cons.mpr ⟨narrowed, later⟩
        · exact List.forall_mem_cons.mpr ⟨here, ih later⟩
  exact inserted _ built

theorem BuiltFacts.widen (built : BuiltFacts facts) (symbol : SymbolId) :
    BuiltFacts (facts.widen symbol) :=
  fun entry member => built entry (List.mem_filter.mp member).1

theorem BuiltFacts.markSet (built : BuiltFacts facts) (symbol : SymbolId) :
    BuiltFacts (facts.markSet symbol) := by
  unfold Facts.markSet
  split <;> exact built

theorem BuiltFacts.merge {paths : List (Facts Ty)} (built : ∀ facts ∈ paths, BuiltFacts facts) :
    BuiltFacts (.merge paths) := by
  unfold Facts.merge
  split
  · exact fun entry member => nomatch member
  · rename_i first rest arriving
    have inside : first ∈ paths := (List.mem_filter.mp (arriving ▸ List.mem_cons_self)).1
    exact fun entry member => built first inside entry (List.mem_filter.mp member).1

theorem sound_getFacts : basis.Gives given getFacts BuiltFacts :=
  .ofYields (fun _ => yields_getFacts) fun _ _ fits _ _ same => same ▸ fits.facts

theorem sound_setFacts (built : given → BuiltFacts facts) :
    basis.Gives given (setFacts facts) fun _ => True where
  develops _ := ⟨id, .refl _⟩
  registry _ := rfl
  holds given _ fits _ := ⟨{ fits with facts := built given }, trivial⟩

theorem sound_modifyFacts {change : Facts Ty → Facts Ty}
    (built : given → ∀ facts, BuiltFacts facts → BuiltFacts (change facts)) :
    basis.Gives given (modifyFacts change) fun _ => True where
  develops _ := ⟨id, .refl _⟩
  registry _ := rfl
  holds given _ fits _ := ⟨{ fits with facts := built given _ fits.facts }, trivial⟩

structure Basis.HoldsBranches (basis : Basis) (branches : Branches) : Prop where
  condition : basis.Holds branches.condition
  whenTrue : BuiltFacts branches.whenTrue
  whenFalse : BuiltFacts branches.whenFalse

structure ExprCheck.Sound (basis : Basis) (check : ExprCheck) : Prop where
  value : basis.Gives True check.value basis.Holds
  condition : basis.Gives True check.condition basis.HoldsBranches

theorem ExprCheck.Sound.valueHere {check : ExprCheck} (sound : check.Sound basis) :
    basis.Gives given check.value basis.Holds :=
  sound.value.under fun _ => trivial

theorem ExprCheck.Sound.conditionHere {check : ExprCheck} (sound : check.Sound basis) :
    basis.Gives given check.condition basis.HoldsBranches :=
  sound.condition.under fun _ => trivial

theorem BuiltFacts.setUnreachable (built : BuiltFacts facts) : BuiltFacts facts.setUnreachable :=
  built

theorem plainCondition_sound (value : basis.Gives given check basis.Holds) :
    basis.Gives given (plainCondition check) basis.HoldsBranches := by
  refine value.bind fun expression => sound_getFacts.bind fun facts => ?_
  have plain : ∀ {whenTrue whenFalse : Facts Ty}, (BuiltFacts facts → BuiltFacts whenTrue) →
      (BuiltFacts facts → BuiltFacts whenFalse) →
      basis.Gives ((given ∧ basis.Holds expression) ∧ BuiltFacts facts)
        (Pure.pure ⟨expression, whenTrue, whenFalse⟩) basis.HoldsBranches :=
    fun whenTrue whenFalse => .pure fun given => ⟨given.1.2, whenTrue given.2, whenFalse given.2⟩
  split
  · exact (sound_errorNode _ basis.Holds rfl).bind fun error => .pure fun given => ⟨given.2, given.1.2, given.1.2⟩
  · split
    · split
      · exact plain .setUnreachable id
      · exact plain id .setUnreachable
    · exact plain id id

theorem ofValue_sound (value : basis.Gives True check basis.Holds) : (ofValue check).Sound basis :=
  ⟨value, plainCondition_sound value⟩

theorem built_pair {first second : Facts Ty} (one : BuiltFacts first) (other : BuiltFacts second) :
    BuiltFacts (.merge [first, second]) :=
  .merge (List.forall_mem_cons.mpr ⟨one, List.forall_mem_singleton.mpr other⟩)

theorem ofCondition_sound {check : Check Branches} (condition : basis.Gives True check basis.HoldsBranches) :
    (ofCondition check).Sound basis where
  value := condition.bind fun _ => (sound_setFacts fun given => built_pair given.2.whenTrue given.2.whenFalse).bind
    fun _ => .pure fun given => given.1.2.condition
  condition := condition

theorem checkAnd_sound (span : Span) (first : left.Sound basis) (second : right.Sound basis) :
    basis.Gives given (checkAnd span left right) basis.HoldsBranches := by
  refine first.conditionHere.bind fun one => (sound_setFacts fun given => given.2.whenTrue).andThen fun _ =>
    second.conditionHere.bind fun other => (sound_node fun given => ?_).bind fun _ => .pure fun given => ?_
  · exact .mk rfl trivial (List.forall_mem_append.mpr ⟨given.1.2.condition, given.2.condition⟩)
  · exact ⟨given.2, given.1.2.whenTrue, built_pair given.1.1.2.whenFalse given.1.2.whenFalse⟩

theorem checkOr_sound (span : Span) (first : left.Sound basis) (second : right.Sound basis) :
    basis.Gives given (checkOr span left right) basis.HoldsBranches := by
  refine first.conditionHere.bind fun one => (sound_setFacts fun given => given.2.whenFalse).andThen fun _ =>
    second.conditionHere.bind fun other => (sound_node fun given => ?_).bind fun _ => .pure fun given => ?_
  · exact .mk rfl trivial (List.forall_mem_append.mpr ⟨given.1.2.condition, given.2.condition⟩)
  · exact ⟨given.2, built_pair given.1.1.2.whenTrue given.1.2.whenTrue, given.1.2.whenFalse⟩

theorem checkNot_sound {operand : ExprCheck} (span : Span) (sound : operand.Sound basis) :
    basis.Gives given (checkNot span operand) basis.HoldsBranches := by
  refine sound.conditionHere.bind fun branches => (sound_node fun given => ?_).bind fun _ => .pure fun given => ?_
  · exact .mk rfl trivial given.2.condition
  · exact ⟨given.2, given.1.2.whenFalse, given.1.2.whenTrue⟩

theorem built_inner {inner : Ty} (built : (Ty.nullable inner).isBuilt = true) : inner.isBuilt = true :=
  (Bool.and_eq_true_iff.mp built).1

theorem sound_testedForNull? (left right : Syntax.Expr) :
    basis.Gives given (testedForNull? left right) fun tested => ∀ id inner, tested = some (id, inner) →
      inner.isBuilt = true := by
  refine .ofYields (fun _ => yields_testedForNull? left right) fun _ base fits _ tested found id inner same => ?_
  obtain ⟨⟨name, _, lookedUp⟩, _, type⟩ := found id inner same
  exact built_inner (type ▸ built_typeOf fits.facts id (fits.symbol id (known_of_lookup fits lookedUp)).built)

theorem checkEquality_sound (isEqual : Bool) (left right : Syntax.Expr) (value : basis.Gives True check basis.Holds) :
    basis.Gives given (checkEquality isEqual (testedForNull? left right) check) basis.HoldsBranches := by
  refine (sound_testedForNull? left right).bind fun tested => ?_
  split
  · exact plainCondition_sound (value.under fun _ => trivial)
  · rename_i id inner
    refine (value.under fun _ => trivial).bind fun expression => sound_getFacts.bind fun facts => ?_
    split
    · exact .pure fun given => ⟨given.1.2, given.2.narrow id rfl, given.2.narrow id (given.1.1.2 _ _ rfl)⟩
    · exact .pure fun given => ⟨given.1.2, given.2.narrow id (given.1.1.2 _ _ rfl), given.2.narrow id rfl⟩

theorem built_complement {current rest : Ty} (built : current.isBuilt = true)
    (found : complement? current target = some rest) : rest.isBuilt = true := by
  unfold complement? at found
  split at found
  · cases found
    exact (Bool.and_eq_true_iff.mp built).1
  · split at found
    · cases found
      rfl
    · cases found
  · cases found

theorem judgeTest_sound {base : State} (tested? : Option SymbolId) :
    Yields base (judgeTest test target facts tested?) fun branches => basis.Fits base →
      (∀ id, tested? = some id → id < base.table.symbols.size) →
        basis.Holds test ∧ target.isBuilt = true ∧ BuiltFacts facts → basis.HoldsBranches branches := by
  unfold judgeTest
  split
  · exact .pure fun _ _ ⟨holds, _, facts⟩ => ⟨holds, facts, facts⟩
  · rename_i id
    split
    · exact .pure fun _ _ ⟨holds, _, facts⟩ => ⟨holds, facts, facts⟩
    · refine (yields_getSymbol id).bind fun symbol => .pure fun same fits known sound => ?_
      have declared : symbol.type.isBuilt = true := same ▸ (fits.symbol id (known id rfl)).built
      refine ⟨sound.1, sound.2.2.narrow id sound.2.1, ?_⟩
      split
      · rename_i rest found
        exact sound.2.2.narrow id (built_complement (built_typeOf sound.2.2 id declared) found)
      · exact sound.2.2

theorem judgeName_sound (name : String) (sound : given → basis.Holds test ∧ target.isBuilt = true ∧ BuiltFacts facts) :
    basis.Gives given (lookupVariable name >>= judgeTest test target facts) basis.HoldsBranches := by
  have judged : ∀ base, Yields base (lookupVariable name >>= judgeTest test target facts) fun branches => basis.Fits base →
      basis.Holds test ∧ target.isBuilt = true ∧ BuiltFacts facts → basis.HoldsBranches branches := fun base =>
    (yields_lookupVariable name).bind fun tested? => (judgeTest_sound tested?).mono
      fun _ holds found fits => holds fits fun id same => known_of_lookup fits (found id same).1
  exact .ofYields judged fun given base fits _ _ holds => holds fits (sound given)

theorem checkIs_sound (operand : Syntax.Expr) (span : Span) {resolve : Check Ty}
    (value : basis.Gives True check basis.Holds) (type : basis.Gives True resolve fun type => type.isBuilt = true) :
    basis.Gives given (checkIs operand span check resolve) basis.HoldsBranches := by
  refine (value.under fun _ => trivial).bind fun expression => (type.under fun _ => trivial).bind fun target => ?_
  split
  · exact (sound_errorNode _ basis.Holds rfl).bind fun _ => sound_getFacts.bind fun _ =>
      .pure fun given => ⟨given.1.2, given.2, given.2⟩
  have made : ∀ {given : Prop}, basis.Gives ((given ∧ basis.Holds expression) ∧ target.isBuilt = true)
      (node (.isTest expression target) span .bool) basis.Holds :=
    sound_node fun given => .mk rfl trivial given.1.2
  refine made.bind fun test => sound_getFacts.bind fun facts => ?_
  dsimp only
  split
  · exact judgeName_sound _ fun given => ⟨given.1.2, given.1.1.2, given.2⟩
  · exact .pure fun given => ⟨given.1.2, given.2, given.2⟩

theorem checkConditional_sound {condition thenBranch elseBranch : ExprCheck} (span : Span)
    (first : condition.Sound basis) (whenTrue : thenBranch.Sound basis) (whenFalse : elseBranch.Sound basis) :
    basis.Gives given (checkConditional span condition thenBranch elseBranch) basis.Holds := by
  refine first.conditionHere.bind fun branches => (sound_setFacts fun given => given.2.whenTrue).andThen fun _ =>
    whenTrue.valueHere.bind fun thenValue => sound_getFacts.bind fun afterThen =>
      (sound_setFacts fun given => given.1.1.2.whenFalse).andThen fun _ => whenFalse.valueHere.bind fun elseValue =>
        (sound_modifyFacts fun given facts built => built_pair given.1.2 built).andThen fun _ => ?_
  exact sound_conditionalNode span fun given => ⟨given.1.1.1.2.condition, given.1.1.2, given.2⟩

theorem valuesOf_sound {checks : List ExprCheck} (sound : ∀ check ∈ checks, check.Sound basis) :
    basis.Gives given (valuesOf checks) basis.HoldsAll :=
  .mapM fun check member => (sound check member).valueHere

theorem checkBinary_sound (operator : Syntax.BinaryOp) (span : Span) (first : left.Sound basis)
    (second : right.Sound basis) : basis.Gives given (checkBinary operator span left right) basis.Holds :=
  first.valueHere.bind fun _ => second.valueHere.bind fun _ =>
    sound_binaryNode operator span fun given => ⟨given.1.2, given.2⟩

theorem callNamed_sound (name : String) (nameSpan span : Span)
    {overloads? : Option (SymbolId × List FunctionInstance)} (sound : ∀ check ∈ arguments, check.Sound basis)
    (fitting : given → ∀ id overloads, overloads? = some (id, overloads) →
      ∀ function ∈ overloads, basis.FitsInstance function) :
    basis.Gives given (callNamed name nameSpan span arguments overloads?) basis.Holds := by
  unfold callNamed
  split
  · exact (valuesOf_sound sound).bind fun values =>
      sound_callFunction _ _ _ _ fun given => ⟨fitting given.1 _ _ rfl, given.2⟩
  · exact (sound_checkName _ _ _).bind fun callee => (valuesOf_sound sound).bind fun values =>
      sound_callValue _ fun given => ⟨given.1.2, given.2⟩

theorem sound_getSymbol (id : SymbolId) (known : given → id < basis.symbols) :
    basis.Gives given (getSymbol id) (basis.Knows id) :=
  .ofYields (fun _ => yields_getSymbol id) fun given _ fits extended _ same =>
    same ▸ fits.knows extended (Nat.lt_of_lt_of_le (known given) fits.size)

theorem checkNamedCall_sound (name : String) (nameSpan span : Span) (sound : ∀ check ∈ arguments, check.Sound basis) :
    basis.Gives given (checkNamedCall name nameSpan span arguments) basis.Holds := by
  have value : ∀ {given : Prop}, basis.Gives given (callNamed name nameSpan span arguments none) basis.Holds :=
    callNamed_sound name nameSpan span sound fun _ id overloads same => by cases same
  refine sound_lookupSymbol name (fun _ => rfl) value fun id symbol => ?_
  split
  · rename_i overloads kind
    have named : basis.Gives (given ∧ basis.Knows id symbol)
        (callNamed name nameSpan span arguments (some (id, overloads))) basis.Holds := by
      refine callNamed_sound name nameSpan span sound fun given other others same => ?_
      obtain ⟨_, rfl⟩ := Prod.mk.inj (Option.some.inj same)
      exact given.2.overloads _ kind
    exact named
  · exact value

theorem checkNamedMember_sound (objectName name : String) (objectSpan span : Span) :
    basis.Gives given (checkNamedMember objectName name objectSpan span) basis.Holds := by
  refine (sound_enumValue? objectName name span).bind fun value? => ?_
  split
  · exact .pure fun given => given.2 _ rfl
  · exact (sound_checkName _ _ _).bind fun object => sound_checkMember _ _ fun given => given.2

theorem sound_getContext : basis.Gives given getContext BuiltContext :=
  .ofYields (fun _ => yields_getContext) fun _ _ fits _ _ same => same ▸ fits.context

theorem checkReturned_sound (span : Span) (holds : given → ∀ expr, value = some expr → basis.Holds expr) :
    basis.Gives given (checkReturned span value) fun returned => ∀ expr, returned = some expr → basis.Holds expr := by
  refine sound_getContext.bind fun context => ?_
  split
  · exact (sound_report _ _).bind fun _ => .pure fun given => absurd rfl given.2
  · rename_i type value returns
    split
    · refine (sound_coerce fun given => ⟨given.2.returnType _ returns, holds given.1 _ rfl⟩).bind fun coerced =>
        .pure fun given expr same => ?_
      exact Option.some.inj same ▸ given.2
    · split
      · exact (sound_report _ _).bind fun _ => .pure fun given => absurd rfl given.2
      · exact .pure fun given => holds given.1
  · split
    · exact (sound_report _ _).bind fun _ => .pure fun given => absurd rfl given.2
    · exact .pure fun _ expr same => by cases same

theorem checkReturn_sound (span : Span) (holds : given → ∀ expr, value = some expr → basis.Holds expr) :
    basis.Gives given (checkReturn span value) basis.Holds := by
  refine (checkReturned_sound span holds).bind fun returned =>
    (sound_modifyFacts fun _ facts built => built.setUnreachable).andThen fun _ => sound_node fun given => ?_
  refine .mk rfl trivial ?_
  cases returned with
  | none => exact fun node member => nomatch member
  | some expr => exact given.2 expr rfl

theorem sound_setContext (built : given → BuiltContext context) :
    basis.Gives given (setContext context) fun _ => True where
  develops _ := ⟨id, .refl _⟩
  registry _ := rfl
  holds given _ fits _ := ⟨{ fits with context := built given }, trivial⟩

structure BuiltFrame (frame : LoopFrame) : Prop where
  breaks : ∀ facts ∈ frame.breaks, BuiltFacts facts
  continues : ∀ facts ∈ frame.continues, BuiltFacts facts

theorem BuiltContext.frame (built : BuiltContext context) : BuiltFrame (context.frame.getD {}) :=
  ⟨built.breaks, built.continues⟩

theorem sound_setFrame {frame : Option LoopFrame} (built : given → BuiltFrame (frame.getD {})) :
    basis.Gives given (setFrame frame) fun _ => True :=
  sound_getContext.bind fun _ => sound_setContext fun given =>
    ⟨given.2.returnType, (built given.1).breaks, (built given.1).continues⟩

theorem checkJump_sound {outside : Cause} {shape : Typed.ExprShape} (span : Span)
    {collect : LoopFrame → Facts Ty → LoopFrame} (severe : outside.severity = .error)
    (holds : basis.Holds (.mk shape span .nothing))
    (keeps : ∀ frame facts, BuiltFrame frame → BuiltFacts facts → BuiltFrame (collect frame facts)) :
    basis.Gives given (checkJump outside shape span collect) basis.Holds := by
  refine sound_getContext.bind fun context => ?_
  split
  · exact sound_errorNode _ _ severe
  · rename_i frame framed
    refine sound_getFacts.bind fun facts => (sound_setFrame fun given => ?_).andThen fun _ =>
      (sound_modifyFacts fun _ facts built => built.setUnreachable).andThen fun _ => sound_node fun _ => holds
    have built := given.1.2.frame
    rw [framed] at built
    exact keeps frame facts built given.2

theorem checkBreak_sound (span : Span) : basis.Gives given (checkBreak span) basis.Holds :=
  checkJump_sound span rfl (.leaf rfl trivial rfl) fun _ _ frame facts =>
    ⟨List.forall_mem_append.mpr ⟨frame.breaks, List.forall_mem_singleton.mpr facts⟩, frame.continues⟩

theorem checkContinue_sound (span : Span) : basis.Gives given (checkContinue span) basis.Holds :=
  checkJump_sound span rfl (.leaf rfl trivial rfl) fun _ _ frame facts =>
    ⟨frame.breaks, List.forall_mem_append.mpr ⟨frame.continues, List.forall_mem_singleton.mpr facts⟩⟩

theorem inContext_builds {α : Type} {check : Check α} {post : α → Prop}
    (built : given → BuiltContext context) (builds : basis.Builds given check post) :
    basis.Builds given (inContext context check) post :=
  sound_getContext.toBuilds.bind fun _ => (sound_setContext fun given => built given.1).toBuilds.andThen fun _ =>
    (builds.under And.left).bind fun _ => (sound_setContext fun given => given.1.2).toBuilds.andThen fun _ =>
      .pure fun given => given.2

theorem inContext_sound {α : Type} {check : Check α} {post : α → Prop}
    (built : given → BuiltContext context) (gives : basis.Gives given check post) :
    basis.Gives given (inContext context check) post :=
  ⟨inContext_builds built gives.toBuilds, fun state => gives.registry { state with context := context }⟩

theorem builtContext_none : BuiltContext {} :=
  ⟨fun _ same => (nomatch same), fun _ member => (nomatch member), fun _ member => (nomatch member)⟩

theorem sound_modifyScopes {change : ScopeTree → ScopeTree}
    (keeps : ∀ tree scope entry, entry ∈ ((change tree).scope scope).symbols → entry ∈ (tree.scope scope).symbols) :
    basis.Gives given (modifyScopes change) fun _ => True where
  develops _ := ⟨id, .refl _⟩
  registry _ := rfl
  holds _ _ fits _ := ⟨
    { fits with bound := fun scope entry member => fits.bound scope entry (keeps _ _ _ member) }, trivial⟩

theorem push_symbols {tree : ScopeTree} {kind : ScopeKind} {scope : ScopeId} {entry : String × SymbolId}
    (member : entry ∈ ((tree.push kind).scope scope).symbols) : entry ∈ (tree.scope scope).symbols := by
  rw [ScopeTree.push_scope] at member
  split at member
  · cases member
  · exact member

theorem sound_openScope (kind : ScopeKind) : basis.Gives given (openScope kind) fun _ => True :=
  (sound_modifyScopes fun _ _ _ => push_symbols).andThen fun _ =>
    Basis.Gives.andThen (.marking fun _ => yields_get) fun _ => .pure fun _ => trivial

theorem sound_closeScope : basis.Gives given closeScope fun _ => True :=
  sound_modifyScopes fun _ _ _ member => ScopeTree.pop_scope _ _ ▸ member

theorem sound_enterScope (scope : ScopeId) : basis.Gives given (enterScope scope) fun _ => True :=
  sound_modifyScopes fun _ _ _ member => member

theorem Basis.Fits.rebound {before after : State} {homes : ScopeId → Prop} {symbol : SymbolId}
    (fits : basis.Fits before) (known : symbol < before.table.symbols.size)
    (rebound : Rebound homes name symbol before after) : basis.Fits after := by
  refine fits.alike rebound.table rebound.facts rebound.context (functionAt_of_registry rebound.registry)
    (fieldStatements_of_registry rebound.registry) fun scope entry member => ?_
  rcases rebound.scopes.new member with old | ⟨_, rfl⟩
  · exact fits.bound scope entry old
  · exact known

theorem size_withSymbol (state : State) (symbol : Symbol) :
    (state.withSymbol symbol).table.symbols.size = state.table.symbols.size + 1 :=
  Array.size_push _

theorem Basis.Fits.withSymbol {state : State} (fits : basis.Fits state)
    (fitting : basis.FitsSymbol symbol) : basis.Fits (state.withSymbol symbol) := by
  have grown := size_withSymbol state symbol
  refine { fits with
    size := grown ▸ Nat.le_succ_of_le fits.size
    symbol := fun id known => ?_
    parameters := fun id parameter inside => grown ▸ Nat.lt_succ_of_lt (fits.parameters id parameter inside)
    bound := fun scope entry member => grown ▸ Nat.lt_succ_of_lt (fits.bound scope entry member)
    members := fun cls member inside => grown ▸ Nat.lt_succ_of_lt (fits.members cls member inside) }
  show basis.FitsSymbol ((state.table.addSymbol symbol).2.symbol id)
  rw [Declarations.addSymbol_symbol]
  split
  · exact fitting
  · rename_i other
    exact fits.symbol id (Nat.lt_of_le_of_ne (Nat.le_of_lt_succ (Nat.lt_of_lt_of_eq known grown)) other)

theorem Basis.Fits.declares {home : ScopeId} {before after : State} (fits : basis.Fits before)
    (fitting : basis.FitsSymbol symbol) (declares : Declares home symbol before after) : basis.Fits after :=
  (fits.withSymbol fitting).rebound (size_withSymbol before symbol ▸ Nat.lt_succ_self _) declares.toRebound

theorem sound_define (fitting : given → basis.FitsSymbol symbol) :
    basis.Gives given (define symbol) fun _ => True where
  develops state := by
    obtain ⟨_, declares⟩ := defineIn_declares state.scopes.current symbol state
    exact ⟨declares.accepted, declares.extendsTable⟩
  registry state := (steps_define symbol state).registry
  holds given state fits _ := by
    obtain ⟨_, declares⟩ := defineIn_declares state.scopes.current symbol state
    exact ⟨fits.declares (fitting given) declares, trivial⟩

theorem fits_variable {span : Span} {isMutable : Bool} {kind : SymbolKind}
    (built : type.isBuilt = true) (stored : kind = .localVar ∨ ∃ offset, kind = .globalVar offset) :
    basis.FitsSymbol ⟨name, span, type, isMutable, kind⟩ := by
  rcases stored with rfl | ⟨offset, rfl⟩
  all_goals exact ⟨built, fun _ same => (nomatch same), fun _ _ same => (nomatch same)⟩

theorem checkFill_sound {element : Ty} (span : Span) {body : Check Typed.Expr} (built : given → element.isBuilt = true)
    (gives : basis.Gives True body basis.Holds) : basis.Gives given (checkFill element span body) basis.HoldsFill :=
  (sound_openScope _).andThen fun _ => (sound_define fun _ => fits_variable rfl (.inl rfl)).andThen fun _ =>
    (gives.under fun _ => trivial).bind fun _ => (sound_coerce fun given => ⟨built given.1, given.2⟩).bind fun _ =>
      sound_closeScope.andThen fun _ => .pure fun given => given.2

theorem errorType_sound {cause : Cause} (span : Span) (severe : cause.severity = .error) :
    basis.Gives given (errorType cause span) fun type => type.isBuilt = true :=
  (sound_report _ _).bind fun _ => .pure fun given => absurd severe given.2

structure TypeCheck.Sound (basis : Basis) (check : TypeCheck) : Prop where
  resolved : basis.Gives True check.resolved fun type => type.isBuilt = true
  constructed : basis.Gives True check.constructed fun type => type.isBuilt = true

theorem namedType_sound (name : String) {arguments : List TypeCheck} (span : Span) (mayOmit : Bool)
    (sound : ∀ argument ∈ arguments, argument.Sound basis) :
    basis.Gives given (namedType name arguments span mayOmit) fun type => type.isBuilt = true := by
  refine sound_lookupSymbol name (fun _ => rfl) (errorType_sound _ rfl) fun id symbol => ?_
  split
  · extract_lets expected
    split
    · exact .pure fun given => given.2.built
    split
    · exact errorType_sound _ rfl
    · have resolved : basis.Gives (given ∧ basis.Knows id symbol) (arguments.mapM TypeCheck.resolved) fun types =>
          ∀ type ∈ types, type.isBuilt = true :=
        .mapM fun argument member => (sound argument member).resolved.under fun _ => trivial
      refine resolved.bind fun types => ?_
      split
      · exact .pure fun given => (Ty.allBuilt_iff _).mpr given.2
      · exact .pure fun given => given.1.2.built
  · exact errorType_sound _ rfl

theorem fixedArrayType_sound {element : Check Ty} {size : Check Typed.Expr} (span : Span)
    (type : basis.Gives True element fun type => type.isBuilt = true) (value : basis.Gives True size basis.Holds) :
    basis.Gives given (fixedArrayType element size span) fun type => type.isBuilt = true := by
  refine (type.under fun _ => trivial).bind fun inner =>
    (inContext_sound (fun _ => builtContext_none) (value.under fun _ => trivial)).andThen fun _ => ?_
  split
  · split
    · exact .pure fun given => given.2
    · exact errorType_sound _ rfl
  · exact errorType_sound _ rfl

theorem errorUnionType_sound {inner : Check Ty} (span : Span)
    (sound : basis.Gives True inner fun type => type.isBuilt = true) :
    basis.Gives given (errorUnionType inner span) fun type => type.isBuilt = true := by
  refine (sound.under fun _ => trivial).bind fun type => ?_
  split
  · exact .pure fun given => Ty.isBuilt_orError given.2
  · exact errorType_sound _ rfl

mutual

theorem checkExpr_sound (expr : Syntax.Expr) : (checkExpr expr).Sound basis := by
  cases expr with
  | mk shape span =>
    cases shape with
    | literal value =>
      exact ofValue_sound (sound_checkLiteral span value)
    | name name => exact ofValue_sound (sound_checkName name span false)
    | binary operator left right =>
      have first := checkExpr_sound left
      have second := checkExpr_sound right
      have value : ∀ operator,
          basis.Gives True (checkBinary operator span (checkExpr left) (checkExpr right)) basis.Holds :=
        fun operator => checkBinary_sound operator span first second
      cases operator with
      | and => rw [checkExpr]; exact ofCondition_sound (checkAnd_sound span first second)
      | or => rw [checkExpr]; exact ofCondition_sound (checkOr_sound span first second)
      | eq => rw [checkExpr]; exact ⟨value _, checkEquality_sound true left right (value _)⟩
      | neq => rw [checkExpr]; exact ⟨value _, checkEquality_sound false left right (value _)⟩
      | _ => rw [checkExpr] <;> simp [ofValue_sound (value _)]
    | unary operator operand =>
      have sound := checkExpr_sound operand
      cases operator with
      | not => exact ofCondition_sound (checkNot_sound span sound)
      | minus =>
        exact ofValue_sound (sound.value.bind fun _ => sound_minusNode _ And.right)
    | index object index =>
      exact ofValue_sound ((checkExpr_sound object).value.bind fun _ => (checkExpr_sound index).valueHere.bind fun _ =>
        sound_indexNode _ fun given => ⟨given.1.2, given.2⟩)
    | member object name =>
      have member : basis.Gives True (do checkMember (← (checkExpr object).value) name span) basis.Holds :=
        (checkExpr_sound object).value.bind fun _ => sound_checkMember _ _ fun given => given.2
      obtain ⟨shape, objectSpan⟩ := object
      cases shape with
      | name objectName => exact ofValue_sound (checkNamedMember_sound objectName name objectSpan span)
      | _ => rw [checkExpr] <;> simp [ofValue_sound member]
    | call callee arguments =>
      have values := checkExprs_sound arguments
      have called : basis.Gives True (do
          let callee ← (checkExpr callee).value
          callValue callee (← valuesOf (checkExprs arguments)) span) basis.Holds :=
        (checkExpr_sound callee).value.bind fun _ => (valuesOf_sound values).bind fun _ =>
          sound_callValue _ fun given => ⟨given.1.2, given.2⟩
      obtain ⟨shape, calleeSpan⟩ := callee
      cases shape with
      | name name => exact ofValue_sound (checkNamedCall_sound name calleeSpan span values)
      | member object name =>
        exact ofValue_sound ((checkExpr_sound object).value.bind fun _ =>
          callMember_sound name calleeSpan span (fun given => given.2) (valuesOf_sound values))
      | _ => rw [checkExpr] <;> simp [ofValue_sound called]
    | range start stop operator => exact ofValue_sound (sound_errorNode _ _ rfl)
    | cast operand target =>
      exact ofValue_sound ((checkExpr_sound operand).value.bind fun _ =>
        ((checkType_sound target).resolved.under fun _ => trivial).bind fun _ =>
          sound_castNode _ fun given => ⟨given.1.2, given.2⟩)
    | isTest operand target =>
      exact ofCondition_sound (checkIs_sound operand span (checkExpr_sound operand).value (checkType_sound target).resolved)
    | conditional condition thenBranch elseBranch =>
      exact ofValue_sound (checkConditional_sound span (checkExpr_sound condition) (checkExpr_sound thenBranch)
        (checkExpr_sound elseBranch))
    | create type arguments fill onStack =>
      have values := checkExprs_sound arguments
      have made := (checkType_sound type).constructed
      cases fill with
      | none =>
        exact ofValue_sound (made.bind fun _ => createNode_sound _ _ (fun given => given.2) (valuesOf_sound values)
          fun _ => .pure fun _ _ member => nomatch member)
      | each body bodySpan =>
        have filled := (checkExpr_sound body).value
        exact ofValue_sound (made.bind fun _ => createNode_sound _ _ (fun given => given.2) (valuesOf_sound values)
          fun _ => checkFill_sound bodySpan (fun given => given.2) filled)
    | createList type elements onStack =>
      have values := checkExprs_sound elements
      have typed : basis.Gives True (do
          let elements ← valuesOf (checkExprs elements)
          createListNode (← (checkType type).resolved) elements onStack span) basis.Holds :=
        (valuesOf_sound values).bind fun _ => ((checkType_sound type).resolved.under fun _ => trivial).bind fun _ =>
          sound_createListNode _ _ fun given => ⟨given.2, given.1.2⟩
      obtain ⟨shape, typeSpan⟩ := type
      cases shape with
      | array element =>
        cases element with
        | some element => rw [checkExpr] <;> simp [ofValue_sound typed]
        | none =>
          refine ofValue_sound ((valuesOf_sound values).bind fun elements => ?_)
          split
          · exact sound_errorNode _ _ rfl
          · exact sound_createListNode _ _ fun given => ⟨(given.2 _ List.mem_cons_self).built, given.2⟩
      | _ => rw [checkExpr] <;> simp [ofValue_sound typed]
    | returnExpr value =>
      cases value with
      | none => exact ofValue_sound (checkReturn_sound span fun _ _ same => nomatch same)
      | some value =>
        refine ofValue_sound ((checkExpr_sound value).value.bind fun _ => checkReturn_sound span fun given expr same => ?_)
        exact Option.some.inj same ▸ given.2
    | breakExpr => exact ofValue_sound (checkBreak_sound span)
    | continueExpr => exact ofValue_sound (checkContinue_sound span)

theorem checkExprs_sound (exprs : List Syntax.Expr) : ∀ check ∈ checkExprs exprs, check.Sound basis := by
  cases exprs with
  | nil => simp [checkExprs]
  | cons expr rest =>
    intro check member
    rw [checkExprs] at member
    rcases List.mem_cons.mp member with rfl | later
    · exact checkExpr_sound expr
    · exact checkExprs_sound rest check later

theorem checkType_sound (type : Syntax.TypeExpr) : (checkType type).Sound basis := by
  have both : ∀ {check : Check Ty}, basis.Gives True check (fun type => type.isBuilt = true) →
      TypeCheck.Sound basis ⟨check, check⟩ := fun sound => ⟨sound, sound⟩
  cases type with
  | mk shape span =>
    cases shape with
    | named name arguments =>
      have sound := checkTypes_sound arguments
      exact ⟨namedType_sound name span false sound, namedType_sound name span true sound⟩
    | array element =>
      cases element with
      | none => exact both (errorType_sound _ rfl)
      | some element => exact both ((checkType_sound element).resolved.bind fun _ => .pure fun given => given.2)
    | fixedArray element size =>
      exact both (fixedArrayType_sound span (checkType_sound element).resolved (checkExpr_sound size).value)
    | range element => exact both ((checkType_sound element).resolved.bind fun _ => .pure fun given => given.2)
    | nullable inner =>
      exact both ((checkType_sound inner).resolved.bind fun _ => .pure fun given => Ty.isBuilt_orNull given.2)
    | errorUnion inner => exact both (errorUnionType_sound span (checkType_sound inner).resolved)

theorem checkTypes_sound (types : List Syntax.TypeExpr) : ∀ check ∈ checkTypes types, check.Sound basis := by
  cases types with
  | nil => simp [checkTypes]
  | cons type rest =>
    intro check member
    rw [checkTypes] at member
    rcases List.mem_cons.mp member with rfl | later
    · exact checkType_sound type
    · exact checkTypes_sound rest check later

end

end

end FplCompiler.Analysis
