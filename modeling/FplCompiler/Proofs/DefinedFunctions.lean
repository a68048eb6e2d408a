import FplCompiler.Proofs.SoundProgram
import Mathlib.Data.List.Nodup

/-!
Each definition of a program is declared as a function, and all functions are declared for definitions, but for the one
of the statements of files.
-/

namespace FplCompiler

namespace Analysis

open Check

open Syntax (Definition)

structure Inventory where
  topFunction : Option FunctionId
  fileScopes : List ScopeId
  foundFunctions : List FoundFunction
  foundClasses : List FoundClass
  functionAt : List (Span × FunctionId × ScopeId)
  functions : Array FunctionDef
  classCount : Nat
  constructor? : ClassId → Option FunctionId
  fieldStatements : List (ClassId × List Typed.Stmt)

def State.inventory (state : State) : Inventory :=
  ⟨state.topFunction, state.fileScopes, state.foundFunctions, state.foundClasses, state.functionAt,
    state.table.functions, state.table.classes.size, fun cls => (state.table.classDef cls).constructor?,
    state.fieldStatements⟩

def Idle {α : Type} (check : Check α) : Prop :=
  ∀ state, (check state).2.inventory = state.inventory

theorem inventory_of_registry {before after : State} (same : after.registry = before.registry) :
    after.inventory = before.inventory := by
  simp only [State.registry, Prod.mk.injEq] at same
  simp only [State.inventory, Declarations.classDef, same]

namespace Idle

variable {α β : Type} {check : Check α} {items : List α}

theorem ofSteps (steps : Steps check) : Idle check :=
  fun state => inventory_of_registry (steps state).registry

theorem ofGives {post : Basis → α → Prop}
    (gives : ∀ basis : Basis, basis.Gives False check (post basis)) : Idle check :=
  .ofSteps (.ofGives gives)

theorem bind {first : Check α} {next : α → Check β} (begins : Idle first) (goesOn : ∀ result, Idle (next result)) :
    Idle (first >>= next) :=
  fun state => (goesOn _ _).trans (begins state)

theorem pure (result : α) : Idle (Pure.pure result : Check α) :=
  fun _ => rfl

theorem forM {check : α → Check PUnit} (each : ∀ item, Idle (check item)) : Idle (items.forM check) := by
  induction items with
  | nil => exact .pure _
  | cons item rest ih => exact (each item).bind fun _ => ih

theorem filterMapM {check : α → Check (Option β)} (each : ∀ item, Idle (check item)) :
    Idle (items.filterMapM check) := by
  induction items with
  | nil => exact .pure _
  | cons item rest ih =>
    rw [List.filterMapM_cons]
    refine (each item).bind fun result => ?_
    split
    · exact ih
    · exact ih.bind fun _ => .pure _

end Idle

theorem idle_defineIn (home : ScopeId) (symbol : Symbol) : Idle (defineIn home symbol) :=
  fun state => inventory_of_registry (defineIn_declares home symbol state).2.registry

theorem idle_define (symbol : Symbol) : Idle (define symbol) :=
  fun state => idle_defineIn state.scopes.current symbol state

theorem idle_enterScope (scope : ScopeId) : Idle (enterScope scope) :=
  fun _ => rfl

theorem idle_openScope (kind : ScopeKind) : Idle (openScope kind) :=
  fun _ => rfl

theorem idle_bindIn (scope : ScopeId) (name : String) (symbol : SymbolId) : Idle (bindIn scope name symbol) :=
  fun state => inventory_of_registry (bindIn_rebound scope name symbol state).registry

theorem idle_modifyClass (id : ClassId) {change : ClassDef → ClassDef}
    (same : ∀ cls, (change cls).constructor? = cls.constructor?) : Idle (modifyTable (·.modifyClass id change)) := by
  intro state
  have constructors (cls : ClassId) : ((state.table.modifyClass id change).classDef cls).constructor? =
      (state.table.classDef cls).constructor? := getD_modify_alike ClassDef.constructor? same _ id cls _
  have size : (state.table.modifyClass id change).classes.size = state.table.classes.size := Array.size_modify
  show Inventory.mk _ _ _ _ _ _ (state.table.modifyClass id change).classes.size
    (fun cls => ((state.table.modifyClass id change).classDef cls).constructor?) _ = _
  rw [size, funext constructors]
  rfl

theorem idle_declareParameters (isVararg : Bool) (parameters : List Syntax.Parameter) :
    Idle (declareParameters isVararg parameters) := by
  induction parameters with
  | nil => exact .pure _
  | cons parameter rest ih =>
    exact (Idle.ofGives fun _ => sound_resolveType _).bind fun _ => (idle_define _).bind fun _ => ih.bind fun _ => .pure _

theorem idle_declareEnum (decl : Syntax.EnumDecl) (span : Span) (scope fileScope : ScopeId) :
    Idle (declareEnum decl span scope fileScope) := by
  refine Idle.bind (fun _ => rfl) fun enum => (idle_defineIn _ _).bind fun _ => (idle_enterScope _).bind fun _ =>
    (idle_openScope _).bind fun _ => Idle.bind ?_ fun _ => Idle.bind (fun _ => rfl) fun _ => fun _ => rfl
  exact .forM fun _ => (idle_defineIn _ _).bind fun _ => .pure _

theorem idle_bindFirst (function : FunctionInstance) (span : Span) (owner : ScopeId) (cls : Option ClassRef) :
    Idle (bindFirst function span owner cls) := by
  refine (idle_defineIn _ _).bind fun _ => ?_
  cases cls with
  | none => exact .pure _
  | some cls => exact idle_modifyClass _ fun _ => rfl

theorem idle_bindFurther (function : FunctionInstance) (span : Span) (existing : SymbolId) :
    Idle (bindFurther function span existing) := by
  intro state
  rcases bindFurther_cases function span existing state with marked | ⟨_, _, same⟩
  · exact inventory_of_registry marked.registry
  · rw [same]
    rfl

theorem idle_declareConstants (file : Syntax.FileTree) (scope : ScopeId) : Idle (declareConstants file scope) := by
  refine (idle_enterScope _).bind fun _ => .forM fun stmt => ?_
  split
  · exact .ofGives fun _ => defineConstant_sound _ _
  · exact .pure _

theorem idle_addField (found : FoundClass) (name : String) (span : Span) (type : Ty) (isMutable : Bool) :
    Idle (addField found name span type isMutable) := by
  refine (Idle.ofSteps (.ofYields fun _ => yields_getClass _)).bind fun cls => Idle.bind (idle_modifyClass _ ?_) fun _ =>
    (idle_defineIn _ _).bind fun _ => Idle.bind (idle_modifyClass _ ?_) fun _ => .pure _
  · exact fun _ => rfl
  · exact fun _ => rfl

theorem idle_fieldStatements (found : FoundClass) (constructor : FunctionDef) :
    Idle (fieldStatements found constructor) := by
  refine Idle.bind (.filterMapM fun item => ?_) fun _ => Idle.bind (.filterMapM fun item => ?_) fun _ => .pure _
  · unfold declareParameterField
    dsimp only
    split
    · exact .pure _
    · exact (Idle.ofSteps (steps_getSymbol _)).bind fun _ => (idle_addField _ _ _ _ _).bind fun _ =>
        (Idle.ofSteps (steps_node _ _ _)).bind fun _ => (Idle.ofGives fun _ => setField_sound _ False.elim).bind
          fun _ => .pure _
  · exact (Idle.ofGives fun _ => checkDeclared_sound _ _).bind fun _ => (idle_addField _ _ _ _ _).bind fun _ =>
      .ofGives fun _ => .mapOption fun _ _ => setField_sound _ False.elim

theorem declareFields_inventory (found : FoundClass) (state : State) :
    ∃ fields : List (ClassId × List Typed.Stmt), (∀ entry ∈ fields, ∀ stmt ∈ entry.2, stmt.Plain) ∧
      (declareFields found state).2.inventory =
        { state.inventory with fieldStatements := fields ++ state.inventory.fieldStatements } := by
  rcases declareFields_cases found state with same | ⟨id, scope, made, looked⟩
  · exact ⟨[], fun _ member => (by cases member), by rw [same]; rfl⟩
  · refine ⟨[(found.ref.id, (fieldStatements found (state.table.function id) (state.insideConstructor scope)).1)],
      List.forall_mem_singleton.mpr (fieldStatements_plain _ _ _), ?_⟩
    have idle := idle_fieldStatements found (state.table.function id) (state.insideConstructor scope)
    have before : (state.insideConstructor scope).inventory = state.inventory := rfl
    rw [declareFields_apply made looked, ← before, ← idle]
    rfl

theorem idle_declareColumns (found : FoundEnum) : Idle (declareColumns found) := by
  rw [declareColumns_run]
  exact (Idle.ofGives fun _ => readColumns_sound found).bind fun _ _ => rfl

theorem idle_defineBuiltins : Idle defineBuiltins := by
  refine Idle.bind (fun _ => rfl) fun _ => Idle.bind (fun _ => rfl) fun _ => Idle.bind ?_ fun _ => ?_
  · exact .forM fun _ => (idle_define _).bind fun _ => .pure _
  · exact .forM fun _ => (idle_define _).bind fun _ => .pure _

end Analysis

namespace Syntax.Definition

def function? : Definition → Option Span
  | .function span => some span
  | .constructor _ => none

def constructor? : Definition → Option Span
  | .constructor span => some span
  | .function _ => none

def span : Definition → Span
  | .function span | .constructor span => span

theorem spans_sublist (definitions : List Definition) :
    (definitions.filterMap function?).Sublist (definitions.map span) ∧
      (definitions.filterMap constructor?).Sublist (definitions.map span) := by
  induction definitions with
  | nil => exact ⟨.slnil, .slnil⟩
  | cons definition rest ih =>
    cases definition with
    | function span => exact ⟨ih.1.cons_cons span, ih.2.cons span⟩
    | constructor span => exact ⟨ih.1.cons span, ih.2.cons_cons span⟩

end Syntax.Definition

namespace Analysis

open Check

open Syntax (Definition)

variable {state : State} {keys : List (Span ⊕ ClassId)}

/-- The functions and classes of definitions were found, in their order. Classes are numbered as they are found. -/
structure Finds (definitions : List Definition) (before after : Inventory) : Prop where
  functions : after.foundFunctions.map FoundFunction.span =
    before.foundFunctions.map FoundFunction.span ++ definitions.filterMap Definition.function?
  classes : after.foundClasses.map FoundClass.span =
    before.foundClasses.map FoundClass.span ++ definitions.filterMap Definition.constructor?
  numbers : before.foundClasses.map (·.ref.id) = List.range before.classCount →
    after.foundClasses.map (·.ref.id) = List.range after.classCount
  files : before.fileScopes.length ≤ after.fileScopes.length
  functionsKept : after.functions = before.functions
  topFunction : after.topFunction = before.topFunction
  fieldStatements : after.fieldStatements = before.fieldStatements

theorem Finds.addClass (inventory : Inventory) (found : FoundClass) (number : found.ref.id = inventory.classCount) :
    Finds [.constructor found.span] inventory { inventory with
      foundClasses := inventory.foundClasses ++ [found]
      classCount := inventory.classCount + 1 } where
  functions := (List.append_nil _).symm
  classes := List.map_append
  numbers numbers := by
    rw [List.map_append, List.range_succ, numbers, ← number]
    rfl
  files := Nat.le_refl _
  functionsKept := rfl
  topFunction := rfl
  fieldStatements := rfl

theorem Finds.trans {first second : List Definition} {before between after : Inventory} (one : Finds first before between)
    (two : Finds second between after) : Finds (first ++ second) before after where
  functions := by rw [List.filterMap_append, ← List.append_assoc, ← one.functions, two.functions]
  classes := by rw [List.filterMap_append, ← List.append_assoc, ← one.classes, two.classes]
  numbers := two.numbers ∘ one.numbers
  files := Nat.le_trans one.files two.files
  functionsKept := two.functionsKept.trans one.functionsKept
  topFunction := two.topFunction.trans one.topFunction
  fieldStatements := two.fieldStatements.trans one.fieldStatements

def Searches {α : Type} (definitions : List Definition) (check : Check α) : Prop :=
  ∀ state, Finds definitions state.inventory (check state).2.inventory

namespace Searches

variable {α β : Type} {first second : List Definition}

theorem ofIdle {check : Check α} (idle : Idle check) : Searches [] check := by
  intro state
  rw [idle state]
  exact ⟨by simp, by simp, id, Nat.le_refl _, rfl, rfl, rfl⟩

theorem bind {check : Check α} {next : α → Check β} (begins : Searches first check)
    (goesOn : ∀ result, Searches second (next result)) : Searches (first ++ second) (check >>= next) :=
  fun state => (begins state).trans (goesOn _ _)

end Searches

theorem searches_noteFunction (head : Syntax.FunctionHead) (span : Span) (owner : ScopeId) (cls : Option ClassRef) :
    Searches [.function span] (noteFunction head span owner cls) := by
  intro state
  refine ⟨?_, ?_, id, Nat.le_refl _, rfl, rfl, rfl⟩
  · show List.map FoundFunction.span (state.foundFunctions ++ [_]) = _
    rw [List.map_append]
    rfl
  · exact (List.append_nil _).symm

theorem completeClass_inventory (found : FoundClass) (name : SymbolId) (scope fileScope : ScopeId) (state : State) :
    (completeClass found name scope fileScope state).2.inventory =
      { state.inventory with foundClasses := state.inventory.foundClasses ++ [found] } := by
  have noted (before : State) (same : before.inventory = state.inventory) :
      (completeParameters found before).2.inventory =
        { state.inventory with foundClasses := state.inventory.foundClasses ++ [found] } := by
    have defined : Idle ((found.head.typeParameters.zip found.ref.typeParameters).forM fun named => do
        let _ ← defineIn found.scope ⟨named.1, found.span, named.2, false, .typeName⟩) :=
      .forM fun _ => (idle_defineIn _ _).bind fun _ => .pure _
    rw [← same, ← defined before]
    rfl
  unfold completeClass
  split
  · exact noted _ (idle_bindIn _ _ _ state)
  · exact noted state rfl

theorem constructor?_of_addClass (table : Declarations) (name : String) (span : Span) (parameters : List String)
    (cls : ClassId) :
    ((table.addClass name span parameters).2.classDef cls).constructor? = (table.classDef cls).constructor? := by
  rw [addClass_classDef]
  split
  case isTrue here =>
    rw [here, Declarations.classDef, Array.getD_eq_getD_getElem?, Array.getElem?_eq_none (Nat.le_refl _)]
    rfl
  case isFalse => rfl

theorem searches_declareClass (head : Syntax.ClassHead) (span : Span) (decls : List (Syntax.VariableDecl × Span))
    (scope fileScope : ScopeId) : Searches [.constructor span] (declareClass head span decls scope fileScope) := by
  intro state
  let cls := (state.table.addClass head.name span head.typeParameters).1
  let added : State := { state with table := (state.table.addClass head.name span head.typeParameters).2 }
  let defined := defineIn scope ⟨head.name, span, cls.selfType, false, .typeName⟩ added
  let opened := openScope .class_ (enterScope fileScope defined.2).2
  have run : declareClass head span decls scope fileScope state =
      completeClass ⟨head, span, decls, cls, opened.1⟩ defined.1 scope fileScope opened.2 := rfl
  have constructors := funext (constructor?_of_addClass state.table head.name span head.typeParameters)
  have before : opened.2.inventory = { state.inventory with classCount := state.inventory.classCount + 1 } := by
    have same : opened.2.inventory = added.inventory :=
      (idle_openScope .class_ _).trans ((idle_enterScope fileScope _).trans (idle_defineIn scope _ added))
    rw [same]
    show Inventory.mk _ _ _ _ _ _ (state.table.classes.push _).size
      (fun cls => (added.table.classDef cls).constructor?) _ = _
    rw [constructors, Array.size_push]
    rfl
  rw [run, completeClass_inventory, before]
  exact .addClass state.inventory ⟨head, span, decls, cls, opened.1⟩ rfl

theorem searches_findTypes (scope fileScope : ScopeId) (ofFile : Bool) (stmts : List Syntax.Stmt) :
    Searches (Syntax.definitionsIn ofFile stmts) (findTypes scope fileScope ofFile stmts) := by
  have search : Search Searches := {
    nothing := .ofIdle (.pure _)
    bind := .bind
    ofClass := searches_declareClass
    ofEnum := fun decl span scope fileScope => .ofIdle (idle_declareEnum decl span scope fileScope)
    ofFunction := searches_noteFunction }
  exact search.findTypes scope fileScope ofFile stmts

def definitionsOf (files : List Syntax.FileTree) : List Definition :=
  files.flatMap fun file => Syntax.definitionsIn true file.statements

theorem declareTypes_finds (file : Syntax.FileTree) (state : State) :
    Finds (Syntax.definitionsIn true file.statements) state.inventory (declareTypes file state).2.inventory ∧
      state.fileScopes.length < (declareTypes file state).2.fileScopes.length := by
  let opened := openScope .file (enterScope ScopeTree.global state).2
  let noted : State := { opened.2 with fileScopes := opened.2.fileScopes ++ [opened.1] }
  have longer : state.fileScopes.length < noted.fileScopes.length := by
    show state.fileScopes.length < (state.fileScopes ++ [_]).length
    simp
  have finds : Finds (Syntax.definitionsIn true file.statements) noted.inventory (declareTypes file state).2.inventory :=
    searches_findTypes _ _ true file.statements noted
  have further := Nat.lt_of_lt_of_le longer finds.files
  exact ⟨⟨finds.functions, finds.classes, finds.numbers, Nat.le_of_lt further, finds.functionsKept,
    finds.topFunction, finds.fieldStatements⟩, further⟩

theorem declareTypes_all (files : List Syntax.FileTree) (state : State) :
    Finds (definitionsOf files) state.inventory (files.forM declareTypes state).2.inventory ∧
      state.fileScopes.length + files.length ≤ (files.forM declareTypes state).2.fileScopes.length := by
  induction files generalizing state with
  | nil => exact ⟨Searches.ofIdle (.pure PUnit.unit) state, Nat.le_refl _⟩
  | cons file rest ih =>
    obtain ⟨first, longer⟩ := declareTypes_finds file state
    obtain ⟨others, longest⟩ := ih (declareTypes file state).2
    refine ⟨first.trans others, ?_⟩
    show state.fileScopes.length + (rest.length + 1) ≤
      (rest.forM declareTypes (declareTypes file state).2).2.fileScopes.length
    omega

namespace Inventory

/-- Functions are declared for the places of functions and for the numbers of classes. -/
def definedBy (inventory : Inventory) : Span ⊕ ClassId → Option FunctionId
  | .inl span => (inventory.functionAt.lookup span).map Prod.fst
  | .inr cls => inventory.constructor? cls

def findings (inventory : Inventory) :=
  (inventory.topFunction, inventory.fileScopes, inventory.foundClasses, inventory.classCount, inventory.fieldStatements)

end Inventory

structure Complete (keys : List (Span ⊕ ClassId)) (inventory : Inventory) : Prop where
  known : ∀ key ∈ keys, (inventory.definedBy key).isSome
  all : ∀ id < inventory.functions.size, ∃ key ∈ keys, inventory.definedBy key = some id
  labelled : ∀ function ∈ inventory.functions, '/' ∈ function.label.toList

structure Defines (key : Span ⊕ ClassId) (before after : Inventory) : Prop where
  made : ∃ function : FunctionDef, '/' ∈ function.label.toList ∧ after.functions = before.functions.push function
  here : after.definedBy key = some before.functions.size
  others : ∀ other, other ≠ key → after.definedBy other = before.definedBy other
  findings : after.findings = before.findings

theorem Complete.define {key : Span ⊕ ClassId} {before after : Inventory}
    (complete : Complete keys before) (fresh : key ∉ keys) (defines : Defines key before after) :
    Complete (keys ++ [key]) after := by
  obtain ⟨function, labelled, pushed⟩ := defines.made
  have older : ∀ other ∈ keys, after.definedBy other = before.definedBy other := fun other member =>
    defines.others other fun same => fresh (same ▸ member)
  refine ⟨List.forall_mem_append.mpr ⟨fun other member => ?_, List.forall_mem_singleton.mpr ?_⟩, fun id bound => ?_,
    fun other member => ?_⟩
  · rw [older other member]
    exact complete.known other member
  · rw [defines.here]
    rfl
  · rw [pushed, Array.size_push] at bound
    rcases Nat.lt_succ_iff_lt_or_eq.mp bound with old | rfl
    · obtain ⟨other, member, same⟩ := complete.all id old
      exact ⟨other, List.mem_append_left _ member, (older other member).trans same⟩
    · exact ⟨key, List.mem_append_right _ (List.mem_singleton_self _), defines.here⟩
  · rw [pushed] at member
    rcases Array.mem_push.mp member with old | rfl
    · exact complete.labelled other old
    · exact labelled

theorem forM_defines {α : Type} {items : List α} {check : α → Check PUnit} {key : α → Span ⊕ ClassId}
    {apart : Prop} (each : ∀ item ∈ items, ∀ later : State,
      later.inventory.findings = state.inventory.findings →
        Defines (key item) later.inventory (check item later).2.inventory)
    (complete : apart → Complete keys state.inventory) (distinct : apart → (keys ++ items.map key).Nodup) :
    (apart → Complete (keys ++ items.map key) (items.forM check state).2.inventory) ∧
      (items.forM check state).2.inventory.findings = state.inventory.findings := by
  induction items generalizing keys state with
  | nil => exact ⟨fun isApart => by rw [List.map_nil, List.append_nil]; exact complete isApart, rfl⟩
  | cons item rest ih =>
    have first := each item List.mem_cons_self state rfl
    rw [List.map_cons, List.append_cons] at distinct ⊢
    have fresh : apart → key item ∉ keys := fun isApart member =>
      (List.nodup_append.mp (List.nodup_append.mp (distinct isApart)).1).2.2 _ member _ (List.mem_singleton_self _) rfl
    obtain ⟨completed, same⟩ := ih (fun item member later found => each item (List.mem_cons_of_mem _ member) later
      (found.trans first.findings)) (fun isApart => (complete isApart).define (fresh isApart) first) distinct
    exact ⟨completed, same.trans first.findings⟩

theorem addLabelled_inventory (owner name : String) (function : FunctionDef) (state : State) :
    ∃ made : FunctionDef, '/' ∈ made.label.toList ∧
      (addLabelled owner name function state).1 = state.inventory.functions.size ∧
      (addLabelled owner name function state).2.inventory =
        { state.inventory with functions := state.inventory.functions.push made } := by
  refine ⟨{ function with
    label := owner ++ "/" ++ name ++ "(" ++
      Ty.parameterText (state.table.parameterTypes function) function.isVararg ++ ")" },
    ?_, rfl, rfl⟩
  simp [String.toList_append]

theorem noteDeclared_inventory (found : FoundFunction) (id : FunctionId) (function : FunctionInstance)
    (existing? : Option SymbolId) (state : State) : (noteDeclared found id function existing? state).2.inventory =
      { state.inventory with functionAt := (found.span, id, found.scope) :: state.inventory.functionAt } := by
  have noted : ∀ later : State, later.inventory = state.inventory →
      { later with functionAt := (found.span, id, found.scope) :: later.functionAt }.inventory =
        { state.inventory with functionAt := (found.span, id, found.scope) :: state.inventory.functionAt } := by
    intro later same
    rw [← same]
    rfl
  cases existing? with
  | none => exact noted _ (idle_bindFirst _ _ _ _ state)
  | some existing => exact noted _ (idle_bindFurther _ _ _ state)

theorem completeFunction_defines (found : FoundFunction) (this : Option SymbolId) (parameters : List SymbolId)
    (returnType : Ty) (state : State) :
    Defines (.inl found.span) state.inventory (completeFunction found this parameters returnType state).2.inventory := by
  obtain ⟨made, labelled, isNew, inventory⟩ := addLabelled_inventory ((found.cls.map (·.name)).getD "") found.head.name
    ⟨found.head.name, "", found.span, parameters, this, found.head.isVararg, returnType, found.cls.map (·.id), false⟩ state
  generalize run : addLabelled ((found.cls.map (·.name)).getD "") found.head.name
    ⟨found.head.name, "", found.span, parameters, this, found.head.isVararg, returnType, found.cls.map (·.id), false⟩
    state = added at isNew inventory
  have noted : completeFunction found this parameters returnType state =
      noteDeclared found added.1 (added.2.table.instantiate added.1 [])
        (added.2.scopes.lookupIn found.owner found.head.name) added.2 := by
    rw [← run]
    rfl
  rw [noted, noteDeclared_inventory, inventory, isNew]
  refine ⟨⟨made, labelled, rfl⟩, by simp [Inventory.definedBy], fun other different => ?_, rfl⟩
  cases other with
  | inl span =>
    simp [Inventory.definedBy, List.lookup_cons, beq_eq_false_iff_ne.mpr fun same => different (congrArg _ same)]
  | inr cls => rfl

theorem declareFunction_defines (found : FoundFunction) (state : State) :
    Defines (.inl found.span) state.inventory (declareFunction found state).2.inventory := by
  have this : Idle (found.cls.mapM (fun cls => declareThis cls found.span) : Check (Option SymbolId)) := by
    cases found.cls with
    | none => exact .pure _
    | some cls => exact (idle_define _).bind fun _ => .pure _
  have entered := this (enterScope found.scope state).2
  generalize thisRun : (found.cls.mapM (fun cls => declareThis cls found.span) : Check (Option SymbolId))
    (enterScope found.scope state).2 = declaredThis at entered
  have received := (idle_declareParameters found.head.isVararg found.head.parameters declaredThis.2).trans
    (entered.trans (idle_enterScope found.scope state))
  generalize parametersRun : declareParameters found.head.isVararg found.head.parameters declaredThis.2 =
    parameters at received
  have run : declareFunction found state =
      completeReturned found declaredThis.1 parameters.1 found.head.returnType parameters.2 := by
    rw [← parametersRun, ← thisRun]
    rfl
  rw [run, completeReturned.eq_def]
  cases found.head.returnType with
  | none =>
    dsimp only
    rw [bind_apply, ← received]
    exact completeFunction_defines found _ _ .unit parameters.2
  | some type =>
    dsimp only
    rw [bind_apply, ← received, ← Idle.ofGives (fun _ => sound_resolveType type) parameters.2]
    exact completeFunction_defines found _ _ _ _

theorem constructor?_set (table : Declarations) (id : ClassId) (constructor : FunctionId) (cls : ClassId) :
    ((table.modifyClass id fun cls => { cls with constructor? := some constructor }).classDef cls).constructor? =
      if cls = id ∧ id < table.classes.size then some constructor else (table.classDef cls).constructor? := by
  simp only [Declarations.modifyClass, Declarations.classDef, Array.getD_eq_getD_getElem?, Array.getElem?_modify]
  by_cases here : cls = id
  · subst here
    by_cases known : cls < table.classes.size <;> simp [known]
  · simp [here, Ne.symm here]

theorem declareConstructor_defines (found : FoundClass) (state : State)
    (known : found.ref.id < state.inventory.classCount) :
    Defines (.inr found.ref.id) state.inventory (declareConstructor found state).2.inventory := by
  let opened := (openScope .function (enterScope found.scope state).2).2
  let thisRun := declareThis found.ref found.span opened
  let parametersRun := declareParameters false found.head.parameters thisRun.2
  have received : parametersRun.2.inventory = state.inventory :=
    (idle_declareParameters _ _ _).trans (idle_define _ opened)
  obtain ⟨made, labelled, isNew, added⟩ := addLabelled_inventory found.head.name "new"
    ⟨found.head.name, "", found.span, parametersRun.1, some thisRun.1, false, .unit, some found.ref.id, true⟩
      parametersRun.2
  have run : declareConstructor found state =
      let added := addLabelled found.head.name "new"
        ⟨found.head.name, "", found.span, parametersRun.1, some thisRun.1, false, .unit, some found.ref.id, true⟩
        parametersRun.2
      ((), { added.2 with
        table := added.2.table.modifyClass found.ref.id fun cls => { cls with constructor? := some added.1 }
        constructorScopes := (found.ref.id, state.scopes.scopes.size) :: added.2.constructorScopes }) := rfl
  rw [run]
  dsimp only
  generalize addLabelled found.head.name "new" _ parametersRun.2 = labelledRun at isNew added
  rw [received] at isNew added
  have count : labelledRun.2.table.classes.size = state.inventory.classCount := congrArg Inventory.classCount added
  have size : (labelledRun.2.table.modifyClass found.ref.id
      fun cls => { cls with constructor? := some labelledRun.1 }).classes.size = state.inventory.classCount :=
    Array.size_modify.trans count
  have constructors := constructor?_set labelledRun.2.table found.ref.id labelledRun.1
  refine ⟨⟨made, labelled, congrArg Inventory.functions added⟩, ?_, fun other different => ?_, ?_⟩
  · rw [← isNew]
    exact (constructors _).trans (if_pos ⟨rfl, count ▸ known⟩)
  · cases other with
    | inl span => exact congrArg (·.definedBy (.inl span)) added
    | inr cls =>
      refine ((constructors cls).trans (if_neg fun here => different (congrArg _ here.1))).trans ?_
      exact congrArg (·.constructor? cls) added
  · have same := congrArg Inventory.findings added
    simp only [Inventory.findings, State.inventory, Prod.mk.injEq] at same size ⊢
    exact ⟨same.1, same.2.1, same.2.2.1, size, same.2.2.2.2⟩

theorem declareAll_complete (files : List Syntax.FileTree)
    (start : state.inventory = ⟨none, [], [], [], [], #[], 0, fun _ => none, []⟩) :
    let spans := (definitionsOf files).filterMap Definition.function?
    let declared := (declareAll files state).2
    (spans.Nodup → Complete (spans.map .inl ++ declared.foundClasses.map (.inr ·.ref.id)) declared.inventory) ∧
      declared.foundClasses.map FoundClass.span = (definitionsOf files).filterMap Definition.constructor? ∧
      files.length ≤ declared.fileScopes.length ∧ declared.topFunction = none ∧ declared.PlainFields := by
  intro spans declared
  let types := (files.forM declareTypes state).2
  let functions := (types.foundFunctions.forM declareFunction types).2
  let constants := (declareFileConstants (files.zip functions.fileScopes) functions).2
  let constructors := (constants.foundClasses.forM declareConstructor constants).2
  let fields := (constructors.foundClasses.forM declareFields constructors).2
  obtain ⟨found, scopes⟩ : Finds (definitionsOf files) state.inventory types.inventory ∧
    state.fileScopes.length + files.length ≤ types.fileScopes.length := declareTypes_all files state
  rw [start] at found
  have sameSpans : types.foundFunctions.map (fun found => (.inl found.span : Span ⊕ ClassId)) = spans.map .inl :=
    List.map_map.symm.trans (congrArg (List.map Sum.inl) found.functions)
  have nothing : Complete [] types.inventory := by
    refine ⟨fun _ member => (by cases member), ?_, ?_⟩
    · rw [found.functionsKept]
      exact fun _ bound => absurd bound (Nat.not_lt_zero _)
    · rw [found.functionsKept]
      exact fun _ member => absurd member (Array.not_mem_empty _)
  obtain ⟨declaredFunctions, findings⟩ := forM_defines (fun found _ later _ => declareFunction_defines found later)
    (fun _ : spans.Nodup => nothing) fun apart => by
      rw [List.nil_append, sameSpans]
      exact apart.map fun _ _ => Sum.inl.inj
  rw [List.nil_append, sameSpans] at declaredFunctions
  have idle : Idle (declareFileConstants (files.zip functions.fileScopes)) :=
    .forM fun item => idle_declareConstants item.1 item.2
  have constanting : constants.inventory = functions.inventory := idle functions
  have same : constants.inventory.findings = types.inventory.findings :=
    (congrArg Inventory.findings constanting).trans findings
  have sameFound : constants.foundClasses = types.foundClasses := congrArg (·.2.2.1) same
  have numbers : constants.foundClasses.map (·.ref.id) = List.range constants.inventory.classCount := by
    rw [sameFound]
    exact (found.numbers rfl).trans (congrArg (List.range ·.2.2.2.1) same.symm)
  have sameNumbers : constants.foundClasses.map (fun found => (.inr found.ref.id : Span ⊕ ClassId)) =
      (List.range constants.inventory.classCount).map .inr :=
    List.map_map.symm.trans (congrArg (List.map Sum.inr) numbers)
  have before (apart : spans.Nodup) : Complete (spans.map .inl) constants.inventory := by
    rw [constanting]
    exact declaredFunctions apart
  obtain ⟨constructed, stillFound⟩ := forM_defines (fun found member later same =>
      declareConstructor_defines found later (by
        have count : later.inventory.classCount = constants.inventory.classCount := congrArg (·.2.2.2.1) same
        rw [count]
        exact List.mem_range.mp (numbers ▸ List.mem_map_of_mem member))) before fun apart => by
    rw [sameNumbers]
    refine List.nodup_append.mpr ⟨apart.map fun _ _ => Sum.inl.inj, List.nodup_range.map fun _ _ => Sum.inr.inj, ?_⟩
    simp
  let Filled (later : State) : Prop := ∃ set : List (ClassId × List Typed.Stmt),
    (∀ entry ∈ set, ∀ stmt ∈ entry.2, stmt.Plain) ∧ later.inventory = { constructors.inventory with fieldStatements := set }
  have none : constructors.inventory.fieldStatements = [] :=
    (congrArg (·.2.2.2.2) (stillFound.trans same)).trans found.fieldStatements
  have filled : Filled fields := by
    refine forM_keeps (fun found _ between sofar => ?_) ⟨[], fun _ member => (by cases member), by rw [← none]⟩
    obtain ⟨set, plain, same⟩ := sofar
    obtain ⟨more, alsoPlain, further⟩ := declareFields_inventory found between
    exact ⟨more ++ set, List.forall_mem_append.mpr ⟨alsoPlain, plain⟩, further.trans (by rw [same])⟩
  obtain ⟨set, plain, isSet⟩ := filled
  have rest : declared.inventory = { constructors.inventory with fieldStatements := set } :=
    (Idle.forM idle_declareColumns fields).trans isSet
  have classes : declared.foundClasses = constants.foundClasses :=
    (congrArg Inventory.foundClasses rest).trans (congrArg (·.2.2.1) stillFound)
  have fileScopes : declared.fileScopes = types.fileScopes :=
    (congrArg Inventory.fileScopes rest).trans (congrArg (·.2.1) (stillFound.trans same))
  have top : declared.topFunction = types.topFunction :=
    (congrArg Inventory.topFunction rest).trans (congrArg (·.1) (stillFound.trans same))
  have isSet : declared.fieldStatements = set := congrArg Inventory.fieldStatements rest
  refine ⟨fun apart => ?_, ?_, ?_, top.trans found.topFunction, fun entry member => plain entry (isSet ▸ member)⟩
  · rw [rest, classes]
    exact ⟨(constructed apart).known, (constructed apart).all, (constructed apart).labelled⟩
  · rw [classes, sameFound]
    exact found.classes
  · rw [fileScopes]
    exact Nat.le_trans (Nat.le_add_left _ _) scopes

theorem declaredState_complete (sources : SourceMap) (files : List Syntax.FileTree) :
    let spans := (definitionsOf files).filterMap Definition.function?
    let declared := declaredState sources files
    (spans.Nodup → Complete (spans.map .inl ++ declared.foundClasses.map (.inr ·.ref.id)) declared.inventory) ∧
      declared.foundClasses.map FoundClass.span = (definitionsOf files).filterMap Definition.constructor? ∧
      files.length ≤ declared.fileScopes.length ∧ declared.topFunction = none ∧ declared.PlainFields := by
  have complete := declareAll_complete files (idle_defineBuiltins { sources := sources })
  unfold declaredState identifyAll
  rw [bind_apply]
  generalize declareAll files (defineBuiltins { sources := sources }).2 = declared at complete
  exact complete

theorem declaredState_definitions (sources : SourceMap) (files : List Syntax.FileTree)
    (apart : ((definitionsOf files).map Definition.span).Nodup) :
    files.length ≤ (declaredState sources files).fileScopes.length ∧ (declaredState sources files).topFunction = none ∧
      (∀ definition ∈ definitionsOf files, ((declaredState sources files).definedAt definition).isSome) ∧
      (∀ id < (declaredState sources files).table.functions.size,
        ∃ definition ∈ definitionsOf files, (declaredState sources files).definedAt definition = some id) ∧
      ∀ function ∈ (declaredState sources files).table.functions, '/' ∈ function.label.toList := by
  have classesApart := (Definition.spans_sublist (definitionsOf files)).2.nodup apart
  obtain ⟨complete, spans, scopes, top, -⟩ := declaredState_complete sources files
  have complete := complete ((Definition.spans_sublist (definitionsOf files)).1.nodup apart)
  generalize declaredState sources files = state at complete spans scopes top
  -- The class that is found by its place is the one that stands there.
  have isFound : ∀ found ∈ state.foundClasses, state.foundClasses.find? (·.span = found.span) = some found := by
    intro found member
    have some : (state.foundClasses.find? (·.span = found.span)).isSome := List.find?_isSome.mpr ⟨found, member, by simp⟩
    obtain ⟨other, same⟩ := Option.isSome_iff_exists.mp some
    have at_ : other.span = found.span := by simpa using List.find?_some same
    rw [same, List.inj_on_of_nodup_map (spans ▸ classesApart) (List.mem_of_find?_eq_some same) member at_]
  refine ⟨scopes, top, fun definition member => ?_, fun id bound => ?_, complete.labelled⟩
  · cases definition with
    | function span =>
      exact complete.known (.inl span)
        (List.mem_append_left _ (List.mem_map_of_mem (List.mem_filterMap.mpr ⟨_, member, rfl⟩)))
    | constructor span =>
      have inSpans : span ∈ state.foundClasses.map FoundClass.span := by
        rw [spans]
        exact List.mem_filterMap.mpr ⟨_, member, rfl⟩
      obtain ⟨found, isClass, rfl⟩ := List.mem_map.mp inSpans
      rw [State.definedAt, isFound found isClass]
      exact complete.known (.inr found.ref.id) (List.mem_append_right _ (List.mem_map.mpr ⟨found, isClass, rfl⟩))
  · obtain ⟨key, member, same⟩ := complete.all id bound
    rcases List.mem_append.mp member with ofFunction | ofClass
    · obtain ⟨span, isSpan, rfl⟩ := List.mem_map.mp ofFunction
      obtain ⟨definition, isDefinition, isFunction⟩ := List.mem_filterMap.mp isSpan
      cases definition with
      | function span' =>
        cases isFunction
        exact ⟨_, isDefinition, same⟩
      | constructor span' => cases isFunction
    · obtain ⟨found, isClass, rfl⟩ := List.mem_map.mp ofClass
      have inSpans : found.span ∈ (definitionsOf files).filterMap Definition.constructor? := by
        rw [← spans]
        exact List.mem_map_of_mem isClass
      obtain ⟨definition, isDefinition, isClass'⟩ := List.mem_filterMap.mp inSpans
      cases definition with
      | function span' => cases isClass'
      | constructor span' =>
        obtain rfl : span' = found.span := Option.some.inj isClass'
        refine ⟨_, isDefinition, ?_⟩
        rw [State.definedAt, isFound found isClass]
        exact same

end Analysis

end FplCompiler
