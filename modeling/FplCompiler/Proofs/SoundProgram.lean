import FplCompiler.Proofs.DeclaredProgram
import FplCompiler.Proofs.SoundStatements

/-! All nodes of an analysed program are sound: the fields of classes are set before the columns of enums are known. -/

namespace FplCompiler.Analysis

open Check

open Typed (stmtsWithin)

variable {state : State}

variable {table : Declarations} {change : ClassDef → ClassDef} {basis : Basis} {given : Prop} {symbol : Symbol}

section

variable {β α : Type} {post : β → Prop} {next : SymbolId → Check β} {function : FunctionDef} {this field : SymbolId}
  {name : String} {type : Ty} {stmts : List Typed.Stmt} {items : List α} {id : FunctionId}

def State.matter (state : State) :=
  (state.table, state.scopes, state.facts, state.context, state.fieldStatements, state.functionAt, state.diagnostics)

theorem sound_noting {change : State → State} (same : ∀ state, (change state).matter = state.matter) :
    basis.Builds given (modify change) fun _ => True := by
  simp only [State.matter, Prod.mk.injEq] at same
  refine ⟨fun state => ⟨fun accepted => ?_, ?_⟩, fun _ state fits _ => ⟨?_, trivial⟩⟩
  all_goals obtain ⟨table, scopes, facts, context, fields, functionAt, diagnostics⟩ := same state
  · have accepted : (change state).Accepted := accepted
    unfold State.Accepted at accepted ⊢
    rwa [diagnostics] at accepted
  · show state.table.Extends (change state).table
    rw [table]
    exact .refl _
  · show basis.Fits (change state)
    exact fits.alike table facts context functionAt fields (by rw [scopes]; exact fits.bound)

namespace Basis

theorem Fits.onto {first second : Basis} (fits : first.Fits state) (enums : Array EnumDef)
    (more : first.table.functions.size ≤ second.table.functions.size)
    (size : second.symbols ≤ state.table.symbols.size) (functions : second.functions ≤ state.table.functions.size)
    (columns : ∀ enum, ({ state.table with enums := enums }.enumDef enum).columns = second.columns enum)
    (columnTypes : ∀ enum, ∀ column ∈ second.columns enum, column.type.isBuilt = true)
    (fields : ∀ entry ∈ state.fieldStatements, second.HoldsBody entry.2) :
    second.Fits { state with table := { state.table with enums := enums } } where
  size := size
  functions := functions
  symbol id known :=
    have fitting := fits.symbol id known
    ⟨fitting.built, fun overloads kind function member =>
      have instance_ := fitting.overloads overloads kind function member
      ⟨Nat.lt_of_lt_of_le instance_.known more, instance_.parameters, instance_.result⟩, fitting.constant⟩
  result := fits.result
  parameters := fits.parameters
  found := fits.found
  bound := fits.bound
  members := fits.members
  constructor cls function made := Nat.lt_of_lt_of_le (fits.constructor cls function made) more
  columns := columns
  columnTypes := columnTypes
  facts := fits.facts
  context := fits.context
  fields := fields

structure Within (first second : Basis) : Prop where
  functions : first.table.functions.size ≤ second.table.functions.size
  names : ∀ type shape, first.Names type shape → second.Names type shape

namespace Within

variable {first second : Basis}

theorem holds (within : first.Within second) {expr : Typed.Expr} (holds : first.Holds expr) : second.Holds expr :=
  fun node member =>
    have sound := holds node member
    ⟨sound.built, within.names _ _ sound.names⟩

theorem holdsStmts (within : first.Within second) (holds : first.HoldsStmts stmts) :
    second.HoldsStmts stmts := by
  intro stmt inside
  obtain ⟨proper, parts, chooses⟩ := holdsStmt_iff.mp (holds stmt inside)
  exact holdsStmt_iff.mpr ⟨proper, fun expr part => within.holds (parts expr part), chooses⟩

theorem fits (within : first.Within second) (fits : first.Fits state)
    (size : second.symbols ≤ state.table.symbols.size) (functions : second.functions ≤ state.table.functions.size)
    (columns : ∀ enum, (state.table.enumDef enum).columns = second.columns enum)
    (columnTypes : ∀ enum, ∀ column ∈ second.columns enum, column.type.isBuilt = true) : second.Fits state :=
  fits.onto state.table.enums within.functions size functions columns columnTypes
    fun entry member => within.holdsStmts (fits.fields entry member)

end Within

def knowing (basis : Basis) (symbols functions : Nat) : Basis :=
  { basis with symbols := symbols, functions := functions }

theorem knowing_within (basis : Basis) (symbols functions : Nat) : (basis.knowing symbols functions).Within basis :=
  ⟨Nat.le_refl _, fun _ shape names => by cases shape <;> exact names⟩

theorem within_knowing (basis : Basis) (symbols functions : Nat) : basis.Within (basis.knowing symbols functions) :=
  ⟨Nat.le_refl _, fun _ shape names => by cases shape <;> exact names⟩

theorem Fits.goesOn {check : Check α} {post : α → Prop} (fits : basis.Fits state)
    {symbols functions : Nat} (fewer : basis.symbols ≤ symbols) (size : symbols ≤ state.table.symbols.size)
    (fewerFunctions : basis.functions ≤ functions) (functionsSize : functions ≤ state.table.functions.size)
    (gives : (basis.knowing symbols functions).Builds given check post) (holds : given)
    (leads : basis.LeadsFrom (check state).2) : basis.Fits (check state).2 ∧ post (check state).1 := by
  have known := (basis.within_knowing symbols functions).fits fits size functionsSize fits.columns fits.columnTypes
  obtain ⟨fits', held⟩ := gives.holds holds state known ⟨leads.accepted, leads.table⟩
  exact ⟨(basis.knowing_within symbols functions).fits fits' (Nat.le_trans fewer fits'.size)
    (Nat.le_trans fewerFunctions fits'.functions) fits'.columns fits'.columnTypes, held⟩

end Basis

def Basis.Then {β : Type} (basis : Basis) (given : Prop) (ids : List SymbolId) (check : Check β) (post : β → Prop) : Prop :=
  ∀ symbols, basis.symbols ≤ symbols →
    (basis.knowing symbols basis.functions).Builds (given ∧ ∀ id ∈ ids, id < symbols) check post

theorem Basis.Then.develops {ids : List SymbolId} {check : Check β}
    (goesOn : basis.Then given ids check post) (state : State) : Develops state (check state).2 :=
  (goesOn _ (Nat.le_refl _)).develops state

theorem sound_declares_then {declare : Check SymbolId}
    (declares : ∀ state, (declare state).1 = state.table.symbols.size ∧
      ∃ home, Declares home symbol state (declare state).2)
    (fitting : given → basis.FitsSymbol symbol) (goesOn : ∀ id, basis.Then given [id] (next id) post) :
    basis.Builds given (declare >>= next) post where
  develops state := by
    obtain ⟨_, _, declares⟩ := declares state
    exact Develops.trans ⟨declares.accepted, declares.extendsTable⟩ ((goesOn _).develops _)
  holds given state fits leads := by
    obtain ⟨new, home, declares⟩ := declares state
    have grown : (declare state).2.table.symbols.size = state.table.symbols.size + 1 := by
      rw [declares.table]
      simp [State.withSymbol, Declarations.addSymbol]
    have known : ∀ id ∈ [(declare state).1], id < state.table.symbols.size + 1 :=
      List.forall_mem_singleton.mpr (new ▸ Nat.lt_succ_self _)
    have enough := Nat.le_succ_of_le fits.size
    have later := fits.declares (fitting given) declares
    exact later.goesOn enough (Nat.le_of_eq grown.symm) (Nat.le_refl _) later.functions (goesOn _ _ enough) ⟨given, known⟩
      leads

theorem sound_defineIn_then (home : ScopeId)
    (fitting : given → basis.FitsSymbol symbol) (goesOn : ∀ id, basis.Then given [id] (next id) post) :
    basis.Builds given (defineIn home symbol >>= next) post :=
  sound_declares_then (fun state => (defineIn_declares home symbol state).imp_right fun declares => ⟨home, declares⟩)
    fitting goesOn

theorem sound_define_then
    (fitting : given → basis.FitsSymbol symbol) (goesOn : ∀ id, basis.Then given [id] (next id) post) :
    basis.Builds given (define symbol >>= next) post :=
  sound_declares_then (fun state => (defineIn_declares state.scopes.current symbol state).imp_right
    fun declares => ⟨_, declares⟩) fitting goesOn

theorem sound_defineIn (home : ScopeId) (fitting : given → basis.FitsSymbol symbol) :
    basis.Builds given (defineIn home symbol) fun _ => True where
  develops state := by
    obtain ⟨_, declares⟩ := defineIn_declares home symbol state
    exact ⟨declares.accepted, declares.extendsTable⟩
  holds given state fits _ := by
    obtain ⟨_, declares⟩ := defineIn_declares home symbol state
    exact ⟨fits.declares (fitting given) declares, trivial⟩

theorem fits_typeName {span : Span} (built : type.isBuilt = true) :
    basis.FitsSymbol ⟨name, span, type, false, .typeName⟩ :=
  ⟨built, fun _ same => (nomatch same), fun _ _ same => (nomatch same)⟩

theorem fits_constant {span : Span} (value : Int32) (counted : type.isCounted = true) :
    basis.FitsSymbol ⟨name, span, type, false, .constant (.int value type)⟩ := by
  refine ⟨Ty.isBuilt_of_isCounted counted, fun _ same => (nomatch same), fun word other same => ?_⟩
  cases same
  exact counted

theorem Basis.Builds.forM {check : α → Check PUnit}
    (each : ∀ item ∈ items, basis.Builds given (check item) fun _ => True) :
    basis.Builds given (items.forM check) fun _ => True := by
  induction items with
  | nil => exact .pure fun _ => trivial
  | cons item rest ih =>
    exact (each item List.mem_cons_self).andThen fun _ => ih fun item member => each item (List.mem_cons_of_mem _ member)

theorem Basis.Fits.addFunction (fits : basis.Fits state)
    (built : function.returnType.isBuilt = true) (known : ∀ id ∈ function.received, id < state.table.symbols.size) :
    basis.Fits (addFunction function state).2 := by
  have grown : (Check.addFunction function state).2.table.functions.size = state.table.functions.size + 1 :=
    Array.size_push function
  have added : ∀ id, (Check.addFunction function state).2.table.function id =
      if id = state.table.functions.size then function else state.table.function id :=
    state.table.addFunction_function function
  refine { fits with
    functions := ?_, result := fun id bound => ?_, parameters := fun id => ?_, found := fun entry member => ?_ }
  · exact grown ▸ Nat.le_succ_of_le fits.functions
  · rw [added]
    split
    · exact built
    · rename_i other
      exact fits.result id (Nat.lt_of_le_of_ne (Nat.le_of_lt_succ (Nat.lt_of_lt_of_eq bound grown)) other)
  · show ∀ parameter ∈ ((Check.addFunction function state).2.table.function id).received, _
    rw [added]
    split
    · exact known
    · exact fits.parameters id
  · exact grown ▸ Nat.lt_succ_of_lt (fits.found entry member)

theorem sound_addFunction_then {next : FunctionId → Check β}
    (fitting : given → function.returnType.isBuilt = true ∧ ∀ id ∈ function.received, id < basis.symbols)
    (goesOn : ∀ id functions, (basis.knowing basis.symbols functions).Builds
      (given ∧ id < functions ∧ id < basis.table.functions.size) (next id) post) :
    basis.Builds given (addFunction function >>= next) post where
  develops state :=
    have added : Develops state (addFunction function state).2 := ⟨id, state.table.addFunction_extends function⟩
    added.trans ((goesOn _ 0).develops _)
  holds given state fits leads := by
    obtain ⟨built, locals⟩ := fitting given
    have later := fits.addFunction built fun id inside => Nat.lt_of_lt_of_le (locals id inside) fits.size
    have grown : (addFunction function state).2.table.functions.size = state.table.functions.size + 1 :=
      Array.size_push function
    have remains := (((goesOn _ 0).develops _).leads leads).table.functions
    exact later.goesOn (Nat.le_refl _) later.size (Nat.le_succ_of_le fits.functions) (Nat.le_of_eq grown.symm)
      (goesOn _ _) ⟨given, Nat.lt_succ_self _, Nat.le_trans (Nat.le_of_eq grown.symm) remains⟩ leads

theorem sound_addLabelled_then (owner name : String) {next : FunctionId → Check β}
    (fitting : given → function.returnType.isBuilt = true ∧ ∀ id ∈ function.received, id < basis.symbols)
    (goesOn : ∀ id functions, (basis.knowing basis.symbols functions).Builds
      (given ∧ id < functions ∧ id < basis.table.functions.size) (next id) post) :
    basis.Builds given (addLabelled owner name function >>= next) post := by
  unfold addLabelled
  rw [bind_assoc]
  exact sound_get.toBuilds.andThen fun _ => sound_addFunction_then fitting goesOn

theorem addClass_classDef (table : Declarations) (name : String) (span : Span) (parameters : List String) (cls : ClassId) :
    (table.addClass name span parameters).2.classDef cls =
      if cls = table.classes.size then ⟨(table.addClass name span parameters).1, span, [], [], .empty, none⟩
      else table.classDef cls :=
  getD_push _ _ _ cls

theorem sound_addClass (name : String) (span : Span) (parameters : List String) :
    basis.Builds given (modifyGet fun state => ((state.table.addClass name span parameters).1,
      { state with table := (state.table.addClass name span parameters).2 }) : Check ClassRef) fun _ => True where
  develops _ := ⟨id, ⟨Nat.le_refl _, fun _ _ => .inl rfl, Nat.le_refl _⟩⟩
  holds _ state fits _ := by
    refine ⟨{ fits with members := fun cls => ?_, constructor := fun cls => ?_ }, trivial⟩
    · show ∀ member ∈ ((state.table.addClass name span parameters).2.classDef cls).members, _
      rw [addClass_classDef]
      split
      · exact fun _ member => nomatch member
      · exact fits.members cls
    · show ∀ function, ((state.table.addClass name span parameters).2.classDef cls).constructor? = some function → _
      rw [addClass_classDef]
      split
      · exact fun _ same => nomatch same
      · exact fits.constructor cls

theorem builtTypeParameters (cls : ClassRef) : ∀ type ∈ cls.typeParameters, type.isBuilt = true := by
  intro type member
  unfold ClassRef.typeParameters at member
  obtain ⟨_, _, rfl⟩ := List.mem_mapIdx.mp member
  rfl

theorem built_selfType (cls : ClassRef) : cls.selfType.isBuilt = true :=
  (Ty.allBuilt_iff _).mpr (builtTypeParameters cls)

theorem sound_bindIn (scope : ScopeId) (name : String) {symbol : SymbolId} (known : given → symbol < basis.symbols) :
    basis.Builds given (bindIn scope name symbol) fun _ => True where
  develops state := by
    have rebound := bindIn_rebound scope name symbol state
    exact ⟨rebound.accepted, by rw [rebound.table]; exact .refl _⟩
  holds given state fits _ :=
    ⟨fits.rebound (Nat.lt_of_lt_of_le (known given) fits.size) (bindIn_rebound scope name symbol state), trivial⟩

theorem completeClass_sound (found : FoundClass) {name : SymbolId} (scope fileScope : ScopeId)
    (known : given → name < basis.symbols) (parameters : ∀ type ∈ found.ref.typeParameters, type.isBuilt = true) :
    basis.Builds given (completeClass found name scope fileScope) fun _ => True := by
  have rest : basis.Builds given (completeParameters found) fun _ => True := by
    refine Basis.Builds.andThen (.forM fun item member => ?_) fun _ => Basis.Builds.andThen (sound_noting fun _ => rfl)
      fun _ => .pure fun _ => trivial
    have built := parameters item.2 (List.of_mem_zip member).2
    exact (sound_defineIn _ fun _ => fits_typeName built).andThen fun _ => .pure fun _ => trivial
  unfold completeClass
  split
  · exact (sound_bindIn _ _ known).andThen fun _ => rest
  · exact rest

theorem declareClass_sound (head : Syntax.ClassHead) (span : Span) (decls : List (Syntax.VariableDecl × Span))
    (scope fileScope : ScopeId) : basis.Builds given (declareClass head span decls scope fileScope) fun _ => True :=
  (sound_addClass head.name span head.typeParameters).andThen fun cls =>
    sound_defineIn_then scope (fun _ => fits_typeName (built_selfType cls)) fun _ _ _ =>
      (sound_enterScope fileScope).toBuilds.andThen fun _ => (sound_openScope .class_).toBuilds.andThen fun classScope =>
        completeClass_sound ⟨head, span, decls, cls, classScope⟩ scope fileScope (fun given => given.2 _ List.mem_cons_self)
          (builtTypeParameters cls)

theorem addEnum_enumDef (table : Declarations) (name : String) (span : Span) (enum : EnumId) :
    (table.addEnum name span).2.enumDef enum =
      if enum = table.enums.size then ⟨(table.addEnum name span).1, span, [], []⟩ else table.enumDef enum :=
  getD_push _ _ _ enum

def Basis.Bare (basis : Basis) : Prop :=
  ∀ enum, basis.columns enum = []

theorem sound_addEnum (name : String) (span : Span) (bare : given → basis.Bare) :
    basis.Builds given (modifyGet fun state => ((state.table.addEnum name span).1,
      { state with table := (state.table.addEnum name span).2 }) : Check EnumRef) fun _ => True where
  develops _ := ⟨id, ⟨Nat.le_refl _, fun _ _ => .inl rfl, Nat.le_refl _⟩⟩
  holds given state fits _ := by
    refine ⟨{ fits with columns := fun enum => ?_ }, trivial⟩
    show ((state.table.addEnum name span).2.enumDef enum).columns = _
    rw [addEnum_enumDef]
    split
    · exact (bare given enum).symm
    · exact fits.columns enum

theorem getD_modify_either (items : Array α) (index other : Nat) (change : α → α) (fallback : α) :
    (items.modify index change).getD other fallback = items.getD other fallback ∨
      (items.modify index change).getD other fallback = change (items.getD other fallback) := by
  simp only [Array.getD_eq_getD_getElem?, Array.getElem?_modify]
  split
  · cases items[other]? with
    | none => exact .inl rfl
    | some found => exact .inr rfl
  · exact .inl rfl

theorem getD_modify_alike {β : Type} {change : α → α} (read : α → β) (same : ∀ item, read (change item) = read item)
    (items : Array α) (index other : Nat) (fallback : α) :
    read ((items.modify index change).getD other fallback) = read (items.getD other fallback) := by
  rcases getD_modify_either items index other change fallback with kept | changed
  · rw [kept]
  · rw [changed, same]

theorem sound_modifyEnum (id : EnumId) {change : EnumDef → EnumDef} (same : ∀ enum, (change enum).columns = enum.columns) :
    basis.Builds given (modifyTable (·.modifyEnum id change)) fun _ => True where
  develops _ := ⟨fun accepted => accepted, ⟨Nat.le_refl _, fun _ _ => .inl rfl, Nat.le_refl _⟩⟩
  holds _ _ fits _ :=
    ⟨{ fits with columns := fun enum => (getD_modify_alike EnumDef.columns same _ id enum _).trans (fits.columns enum) },
      trivial⟩

theorem declareEnum_sound (decl : Syntax.EnumDecl) (span : Span) (scope fileScope : ScopeId) (bare : given → basis.Bare) :
    basis.Builds given (declareEnum decl span scope fileScope) fun _ => True := by
  refine (sound_addEnum decl.name span bare).andThen fun enum => (sound_defineIn scope fun _ => fits_typeName rfl).andThen
    fun _ => (sound_enterScope fileScope).toBuilds.andThen fun _ => 
      (sound_openScope .enum).toBuilds.andThen fun enumScope => ?_
  have values : basis.Builds given (defineEnumValues enum enumScope decl.values) fun _ => True :=
    .forM fun item _ => (sound_defineIn _ fun _ => fits_constant _ rfl).andThen fun _ => .pure fun _ => trivial
  have named : basis.Builds given (modifyTable (·.modifyEnum enum.id fun enum =>
      { enum with values := decl.values.map (·.name) })) fun _ => True := sound_modifyEnum _ fun _ => rfl
  exact values.andThen fun _ => named.andThen fun _ => sound_noting fun state => rfl

theorem noteFunction_sound (head : Syntax.FunctionHead) (span : Span) (owner : ScopeId) (cls : Option ClassRef) :
    basis.Builds given (noteFunction head span owner cls) fun _ => True :=
  (sound_enterScope owner).toBuilds.andThen fun _ => (sound_openScope .function).toBuilds.andThen fun _ =>
    Basis.Builds.andThen (sound_noting fun _ => rfl) fun _ => .pure fun _ => trivial

theorem findTypes_sound (bare : given → basis.Bare) (scope fileScope : ScopeId) (ofFile : Bool) (stmts : List Syntax.Stmt) :
    basis.Builds given (findTypes scope fileScope ofFile stmts) fun _ => True := by
  have search : Search fun _ check => basis.Builds given check fun _ => True := {
    nothing := .pure fun _ => trivial
    bind := .andThen
    ofClass := declareClass_sound
    ofEnum := fun decl span scope fileScope => declareEnum_sound decl span scope fileScope bare
    ofFunction := noteFunction_sound }
  exact search.findTypes scope fileScope ofFile stmts

theorem declareTypes_sound (bare : given → basis.Bare) (file : Syntax.FileTree) :
    basis.Builds given (declareTypes file) fun _ => True :=
  (sound_enterScope _).toBuilds.andThen fun _ => (sound_openScope .file).toBuilds.andThen fun scope =>
    Basis.Builds.andThen (sound_noting fun _ => rfl) fun _ =>
      findTypes_sound bare scope scope true file.statements

theorem sound_declareParameters_then (isVararg : Bool) (parameters : List Syntax.Parameter)
    {next : List SymbolId → Check β} (goesOn : ∀ ids, basis.Then given ids (next ids) post) :
    basis.Builds given (declareParameters isVararg parameters >>= next) post := by
  induction parameters generalizing basis given next with
  | nil => exact (goesOn [] _ (Nat.le_refl _)).under fun given => ⟨given, by simp⟩
  | cons parameter rest ih =>
    unfold declareParameters
    simp only [bind_assoc, pure_bind]
    refine (sound_resolveType parameter.type).toBuilds.bind fun written =>
      sound_define_then (fun given => fits_variable ?_ (.inl rfl)) fun id symbols more => ih fun ids further more' => ?_
    · split <;> exact given.2
    · exact (goesOn (id :: ids) further (Nat.le_trans more more')).under fun given =>
        ⟨given.1.1.1, List.forall_mem_cons.mpr ⟨Nat.lt_of_lt_of_le (given.1.2 id List.mem_cons_self) more', given.2⟩⟩

theorem sound_declareThis_then (cls : ClassRef) (span : Span)
    (goesOn : ∀ id, basis.Then given [id] (next id) post) : basis.Builds given (declareThis cls span >>= next) post :=
  sound_define_then (fun _ => fits_variable (built_selfType cls) (.inl rfl)) goesOn

theorem sound_declareThis?_then (cls? : Option ClassRef) (span : Span) {next : Option SymbolId → Check β}
    (goesOn : ∀ this : Option SymbolId, basis.Then given this.toList (next this) post) :
    basis.Builds given ((cls?.mapM fun cls => declareThis cls span) >>= next) post := by
  cases cls? with
  | none => exact (goesOn none _ (Nat.le_refl _)).under fun given => ⟨given, by simp⟩
  | some cls => exact sound_declareThis_then cls span fun id => goesOn (some id)

theorem Basis.Fits.modifyClass (fits : basis.Fits state) (id : ClassId)
    (members : ∀ cls, (∀ member ∈ cls.members, member.2 < state.table.symbols.size) →
      ∀ member ∈ (change cls).members, member.2 < state.table.symbols.size)
    (constructor : ∀ cls : ClassDef,
      (∀ function, cls.constructor? = some function → function < basis.table.functions.size) →
      ∀ function, (change cls).constructor? = some function → function < basis.table.functions.size) :
    basis.Fits { state with table := state.table.modifyClass id change } := by
  have either : ∀ cls, (state.table.modifyClass id change).classDef cls = state.table.classDef cls ∨
      (state.table.modifyClass id change).classDef cls = change (state.table.classDef cls) :=
    fun cls => getD_modify_either _ id cls change default
  refine { fits with members := fun cls => ?_, constructor := fun cls => ?_ }
  · rcases either cls with same | same
    · exact same.symm ▸ fits.members cls
    · exact same.symm ▸ members _ (fits.members cls)
  · rcases either cls with same | same
    · exact same.symm ▸ fits.constructor cls
    · exact same.symm ▸ constructor _ (fits.constructor cls)

theorem sound_modifyClass (id : ClassId)
    (members : given → ∀ cls size, basis.symbols ≤ size → (∀ member ∈ cls.members, member.2 < size) →
      ∀ member ∈ (change cls).members, member.2 < size) (constructor : given → ∀ cls : ClassDef,
      (∀ function, cls.constructor? = some function → function < basis.table.functions.size) →
        ∀ function, (change cls).constructor? = some function → function < basis.table.functions.size) :
    basis.Builds given (modifyTable (·.modifyClass id change)) fun _ => True where
  develops _ := ⟨fun accepted => accepted, ⟨Nat.le_refl _, fun _ _ => .inl rfl, Nat.le_refl _⟩⟩
  holds given _ fits _ :=
    ⟨fits.modifyClass id (fun cls => members given cls _ fits.size) (constructor given), trivial⟩

theorem fits_functionName {function : FunctionInstance} (span : Span) (fits : basis.FitsInstance function) :
    basis.FitsSymbol ⟨name, span, .function function.parameterTypes function.returnType function.isVararg, false,
      .function [function]⟩ := by
  refine ⟨functionType_built fits, fun overloads same other member => ?_, fun _ _ same => (nomatch same)⟩
  cases same
  rw [List.mem_singleton.mp member]
  exact fits

theorem bindFirst_sound {function : FunctionInstance} (span : Span) (owner : ScopeId) (cls : Option ClassRef)
    (fits : given → basis.FitsInstance function) :
    basis.Builds given (bindFirst function span owner cls) fun _ => True := by
  refine sound_defineIn_then owner (fun given => fits_functionName span (fits given)) fun id symbols _ => ?_
  split
  · refine sound_modifyClass _ (fun given cls size enough members => ?_) fun _ _ constructor => constructor
    exact List.forall_mem_cons.mpr ⟨Nat.lt_of_lt_of_le (given.2 id List.mem_cons_self) enough, members⟩
  · exact .pure fun _ => trivial

theorem Basis.Fits.modifySymbol (fits : basis.Fits state) (id : SymbolId) {change : Symbol → Symbol}
    (keeps : ∀ symbol, basis.FitsSymbol symbol → basis.FitsSymbol (change symbol)) :
    basis.Fits { state with table := state.table.modifySymbol id change } := by
  have size : (state.table.modifySymbol id change).symbols.size = state.table.symbols.size := by
    simp [Declarations.modifySymbol]
  refine { fits with
    size := size ▸ fits.size
    symbol := fun other known => ?_
    parameters := fun id parameter inside => size ▸ fits.parameters id parameter inside
    bound := fun scope entry member => size ▸ fits.bound scope entry member
    members := fun cls member inside => size ▸ fits.members cls member inside }
  have either : (state.table.modifySymbol id change).symbol other = state.table.symbol other ∨
      (state.table.modifySymbol id change).symbol other = change (state.table.symbol other) :=
    getD_modify_either _ id other change default
  have fitting := fits.symbol other (size ▸ known)
  rcases either with same | same
  · exact same.symm ▸ fitting
  · exact same.symm ▸ keeps _ fitting

theorem Basis.Fits.overloads (fits : basis.Fits state) {id : SymbolId} {overloads : List FunctionInstance}
    (kind : (state.table.symbol id).kind = .function overloads) : ∀ function ∈ overloads, basis.FitsInstance function := by
  by_cases known : id < state.table.symbols.size
  · exact (fits.symbol id known).overloads overloads kind
  · rw [Declarations.symbol_outside known] at kind
    cases kind

theorem bindFurther_cases (function : FunctionInstance) (span : Span) (existing : SymbolId) (state : State) :
    Marked state (bindFurther function span existing state).2 ∨ ∃ overloads,
      (state.table.symbol existing).kind = .function overloads ∧ (bindFurther function span existing state).2 =
        { state with table := state.table.modifySymbol existing fun symbol =>
          { symbol with kind := .function (overloads ++ [function]) } } := by
  have got : getSymbol existing state = (state.table.symbol existing, state) := rfl
  unfold bindFurther
  rw [bind_apply, got]
  dsimp only
  cases kind : (state.table.symbol existing).kind with
  | function overloads =>
    dsimp only
    cases overloads.find? (FunctionInstance.sameSignature · function) with
    | none => exact .inr ⟨overloads, rfl, rfl⟩
    | some previous => exact .inl (yields_report _ _).marked
  | _ => exact .inl (yields_reportDuplicate _ _ _).marked

theorem bindFurther_sound {function : FunctionInstance} (span : Span) (existing : SymbolId)
    (fitting : given → basis.FitsInstance function) :
    basis.Builds given (bindFurther function span existing) fun _ => True where
  develops state := by
    rcases bindFurther_cases function span existing state with marked | ⟨overloads, kind, same⟩
    · exact .ofMarked marked
    · rw [same]
      exact ⟨id, state.table.overload_extends (by simp) kind⟩
  holds given state fits _ := by
    refine ⟨?_, trivial⟩
    rcases bindFurther_cases function span existing state with marked | ⟨overloads, kind, same⟩
    · exact fits.marked marked
    · rw [same]
      refine fits.modifySymbol existing fun symbol old => ⟨old.built, fun others same => ?_, fun _ _ same => nomatch same⟩
      cases same
      exact List.forall_mem_append.mpr ⟨fits.overloads kind, List.forall_mem_singleton.mpr (fitting given)⟩

theorem sound_noteFunctionAt (span : Span) (scope : ScopeId) (known : given → id < basis.functions) :
    basis.Builds given (modify fun state : State => { state with functionAt := (span, id, scope) :: state.functionAt })
      fun _ => True where
  develops _ := ⟨fun accepted => accepted, .refl _⟩
  holds given _ fits _ :=
    ⟨{ fits with found := List.forall_mem_cons.mpr ⟨Nat.lt_of_lt_of_le (known given) fits.functions, fits.found⟩ }, trivial⟩

theorem noteDeclared_sound (found : FoundFunction) {function : FunctionInstance}
    (existing? : Option SymbolId) (fits : given → basis.FitsInstance function) (known : given → id < basis.functions) :
    basis.Builds given (noteDeclared found id function existing?) fun _ => True := by
  cases existing? with
  | none => exact (bindFirst_sound _ _ _ fits).andThen fun _ => sound_noteFunctionAt _ _ known
  | some existing => exact (bindFurther_sound _ _ fits).andThen fun _ => sound_noteFunctionAt _ _ known

theorem completeFunction_sound (found : FoundFunction) {this : Option SymbolId} {parameters : List SymbolId}
    {returnType : Ty} (built : given → returnType.isBuilt = true)
    (locals : given → ∀ id ∈ this.toList ++ parameters, id < basis.symbols) :
    basis.Builds given (completeFunction found this parameters returnType) fun _ => True := by
  refine sound_addLabelled_then _ _ (fun given => ⟨built given, locals given⟩) fun id functions =>
    sound_state.toBuilds.bind fun state => sound_get.toBuilds.andThen fun later =>
      noteDeclared_sound found _ (fun given => ?_) fun given => given.1.2.1
  exact fits_instantiate given.2.1 given.2.2 (Nat.lt_of_lt_of_le given.1.2.1 given.2.1.functions)

theorem declareFunction_sound (found : FoundFunction) : basis.Builds given (declareFunction found) fun _ => True := by
  have rest : ∀ {basis : Basis} {given : Prop} (this : Option SymbolId), (given → ∀ id ∈ this.toList, id < basis.symbols) →
      basis.Builds given (declareParameters found.head.isVararg found.head.parameters >>= fun parameters =>
        completeReturned found this parameters found.head.returnType) fun _ => True := by
    intro basis given this known
    refine sound_declareParameters_then _ _ fun ids symbols more => ?_
    have locals : given ∧ (∀ id ∈ ids, id < symbols) → ∀ id ∈ this.toList ++ ids, id < symbols := fun given =>
      List.forall_mem_append.mpr ⟨fun id inside => Nat.lt_of_lt_of_le (known given.1 id inside) more, given.2⟩
    unfold completeReturned
    split
    · exact (sound_resolveType _).toBuilds.bind fun type => completeFunction_sound found (fun given => given.2)
        fun given => locals given.1
    · exact completeFunction_sound found (fun _ => rfl) locals
  exact (sound_enterScope _).toBuilds.andThen fun _ => sound_declareThis?_then found.cls found.span fun this symbols _ =>
    rest this fun given => given.2

theorem declareConstants_sound (file : Syntax.FileTree) (scope : ScopeId) :
    basis.Builds given (declareConstants file scope) fun _ => True := by
  refine (sound_enterScope scope).toBuilds.andThen fun _ => .forM fun stmt _ => ?_
  split
  · exact (defineConstant_sound _ _).toBuilds
  · exact .pure fun _ => trivial

theorem declareConstructor_sound (found : FoundClass) : basis.Builds given (declareConstructor found) fun _ => True := by
  refine (sound_enterScope _).toBuilds.andThen fun _ => (sound_openScope .function).toBuilds.andThen fun scope =>
    sound_declareThis_then _ _ fun this one _ => sound_declareParameters_then _ _ fun parameters symbols more =>
      sound_addLabelled_then _ _ (fun given => ⟨rfl, ?_⟩) fun id functions => ?_
  · exact List.forall_mem_cons.mpr ⟨Nat.lt_of_lt_of_le (given.1.2 this List.mem_cons_self) more, given.2⟩
  have constructed : ∀ {basis : Basis} {given : Prop}, (given → id < basis.table.functions.size) →
      basis.Builds given (modifyTable (·.modifyClass found.ref.id fun cls => { cls with constructor? := some id }))
        fun _ => True :=
    fun known => sound_modifyClass _ (fun _ _ _ _ members => members) fun given _ _ function same =>
      Option.some.inj same ▸ known given
  exact (constructed fun given => given.2.2).andThen fun _ => sound_noting fun _ => rfl

theorem addField_then (found : FoundClass) (name : String) (span : Span) (isMutable : Bool)
    (built : given → type.isBuilt = true) (goesOn : ∀ id, basis.Then given [id] (next id) post) :
    basis.Builds given (addField found name span type isMutable >>= next) post := by
  unfold addField
  simp only [bind_assoc]
  refine (Basis.Gives.marking fun _ => yields_getClass _).toBuilds.andThen fun cls => ?_
  refine Basis.Builds.andThen (sound_modifyClass _ (fun _ _ _ _ members => ?_) fun _ _ constructor => ?_) fun _ => ?_
  · exact members
  · exact constructor
  refine sound_defineIn_then found.scope (fun given => ?_) fun id symbols more => ?_
  · split
    all_goals exact ⟨built given, fun _ same => (nomatch same), fun _ _ same => (nomatch same)⟩
  refine Basis.Builds.andThen (sound_modifyClass _ (fun given _ _ enough members => ?_) fun _ _ constructor => ?_)
    fun _ => goesOn id symbols more
  · exact List.forall_mem_cons.mpr ⟨Nat.lt_of_lt_of_le (given.2 id List.mem_cons_self) enough, members⟩
  · exact constructor

def Basis.KnowsThis (basis : Basis) (this : SymbolId) : Prop :=
  this < basis.symbols ∨ this = 0

theorem Basis.KnowsThis.lt (known : basis.KnowsThis this) (declared : field < basis.symbols) :
    this < basis.symbols := by
  rcases known with known | rfl
  · exact known
  · exact Nat.zero_lt_of_lt declared

theorem setField_sound {value : Typed.Expr} (span : Span)
    (sound : given → basis.KnowsThis this ∧ field < basis.symbols ∧ basis.Holds value) :
    basis.Gives given (setField this field value span) basis.HoldsWithin := by
  refine (sound_getSymbol this fun given => (sound given).1.lt (sound given).2.1).bind fun thisSymbol =>
    (sound_node fun given => ?_).bind fun object =>
      (sound_getSymbol field fun given => (sound given.1.1).2.1).bind fun symbol =>
      (sound_node fun given => ?_).bind fun target => sound_statement fun given =>
        .around (List.forall_mem_cons.mpr ⟨given.2, ?_⟩) .nil
  · exact .leaf given.2.built trivial rfl
  · exact .mk given.2.built (fun _ _ _ => .inl given.2.type) given.1.2
  · exact List.forall_mem_singleton.mpr (sound given.1.1.1.1).2.2

theorem Basis.Builds.filterMapM {check : α → Check (Option Typed.Stmt)}
    (each : ∀ item ∈ items, basis.Builds given (check item) fun stmt? => ∀ stmt ∈ stmt?, basis.HoldsWithin stmt) :
    basis.Builds given (items.filterMapM check) basis.HoldsBody := by
  induction items with
  | nil => exact .pure fun _ => .nil
  | cons item rest ih =>
    rw [List.filterMapM_cons]
    refine (each item List.mem_cons_self).bind fun result => ?_
    have others := ih fun item member => each item (List.mem_cons_of_mem _ member)
    split
    · exact others.under And.left
    · exact (others.under And.left).bind fun _ => .pure fun given => .append (given.1.2 _ rfl) given.2

theorem declareParameterField_sound (found : FoundClass) (parameter : Syntax.Parameter)
    {symbol : SymbolId} (known : given → basis.KnowsThis this ∧ symbol < basis.symbols) :
    basis.Builds given (declareParameterField found this parameter symbol) fun stmt? =>
      ∀ stmt ∈ stmt?, basis.HoldsWithin stmt := by
  unfold declareParameterField
  split
  · exact .pure fun _ => by simp
  · refine (sound_getSymbol symbol fun given => (known given).2).toBuilds.bind fun declared =>
      addField_then _ _ _ _ (fun given => given.2.built) fun field symbols more =>
        (sound_node fun given => ?_).toBuilds.bind
        fun value => (setField_sound _ fun given => ⟨?_, given.1.2 field List.mem_cons_self, given.2⟩).toBuilds.bind
          fun made => .pure fun given stmt same => ?_
    · exact .leaf given.1.2.built trivial rfl
    · exact (known given.1.1.1).1.imp_left fun known => Nat.lt_of_lt_of_le known more
    · exact Option.some.inj same ▸ (basis.knowing_within symbols _).holdsStmts given.2

theorem declareVariableField_sound (found : FoundClass) (decl : Syntax.VariableDecl) (span : Span)
    (known : given → basis.KnowsThis this) :
    basis.Builds given (declareVariableField found this decl span) fun stmt? =>
      ∀ stmt ∈ stmt?, basis.HoldsWithin stmt := by
  refine (checkDeclared_sound decl span).toBuilds.bind fun declared => ?_
  obtain ⟨value, type⟩ := declared
  refine addField_then _ _ _ _ (fun given => given.2.2) fun field symbols more => ?_
  refine (Basis.Gives.mapOption fun item same =>
    setField_sound span fun given => ⟨?_, given.2 field List.mem_cons_self, ?_⟩).toBuilds.mono
    id fun given result? holds stmt same => (basis.knowing_within symbols _).holdsStmts (holds stmt same)
  · exact (known given.1.1).imp_left fun known => Nat.lt_of_lt_of_le known more
  · exact (basis.within_knowing symbols _).holds (given.1.2.1 item same)

theorem knowsThis_of_locals (known : ∀ id ∈ function.received, id < basis.symbols) :
    basis.KnowsThis (function.thisSymbol.getD 0) := by
  cases same : function.thisSymbol with
  | none => exact .inr rfl
  | some this => exact .inl (known this (by simp [FunctionDef.received, same]))

theorem fieldStatements_sound (found : FoundClass) {constructor : FunctionDef}
    (known : given → ∀ id ∈ constructor.received, id < basis.symbols) :
    basis.Builds given (fieldStatements found constructor) basis.HoldsBody := by
  refine (Basis.Builds.filterMapM fun item member => declareParameterField_sound _ _ fun given => ⟨?_, ?_⟩).bind fun _ =>
    (Basis.Builds.filterMapM fun _ _ => declareVariableField_sound _ _ _ fun given => ?_).bind fun _ =>
      .pure fun given => .ofAppended given.1.2 given.2
  · exact knowsThis_of_locals (known given)
  · exact known given item.2 (List.mem_append_right _ (List.of_mem_zip member).2)
  · exact knowsThis_of_locals (known given.1)

theorem builtFacts_start : BuiltFacts .start :=
  fun _ member => nomatch member

theorem sound_noteFields (cls : ClassId) (holds : given → basis.HoldsBody stmts) :
    basis.Builds given (modify fun state : State => { state with fieldStatements := (cls, stmts) :: state.fieldStatements })
      fun _ => True where
  develops _ := ⟨id, .refl _⟩
  holds given _ fits _ := ⟨{ fits with fields := List.forall_mem_cons.mpr ⟨holds given, fits.fields⟩ }, trivial⟩

theorem sound_getFunction_then (id : FunctionId) {next : FunctionDef → Check β}
    (goesOn : ∀ function, basis.Then given function.received (next function) post) :
    basis.Builds given (getFunction id >>= next) post where
  develops state := (goesOn _).develops state
  holds given state fits := by
    show basis.LeadsFrom (next (state.table.function id) state).2 → _
    exact fits.goesOn fits.size (Nat.le_refl _) (Nat.le_refl _) fits.functions (goesOn _ _ fits.size)
      ⟨given, fits.parameters id⟩

theorem declareFields_sound (found : FoundClass) : basis.Builds given (declareFields found) fun _ => True := by
  refine (Basis.Gives.marking fun _ => yields_getClass _).toBuilds.andThen fun cls =>
    sound_get.toBuilds.andThen fun state => ?_
  split
  · refine sound_getFunction_then _ fun constructor symbols _ => ?_
    have fields : (basis.knowing symbols basis.functions).Builds (given ∧ ∀ id ∈ constructor.received, id < symbols)
        (inContext { returnType := some .unit } (fieldStatements found constructor)) fun stmts =>
          (basis.knowing symbols basis.functions).HoldsBody stmts :=
      inContext_builds (fun _ => ⟨fun _ same => Option.some.inj same ▸ rfl, builtContext_none.breaks,
        builtContext_none.continues⟩) (fieldStatements_sound found fun given => given.2)
    exact (sound_enterScope _).toBuilds.andThen fun _ =>
        (sound_setFacts fun _ => builtFacts_start).toBuilds.andThen fun _ =>
      fields.bind fun statements => (Basis.Gives.marking fun _ => yields_getClass _).toBuilds.andThen fun cls =>
        (sound_note _).toBuilds.andThen fun _ => sound_noteFields _ fun given => given.2
  · exact .pure fun _ => trivial

theorem columnValue_sound (argument : Option Syntax.Expr) (built : given → type.isBuilt = true) :
    basis.Gives given (columnValue type argument) fun _ => True := by
  unfold columnValue
  split
  · exact .pure fun _ => trivial
  · refine (inContext_sound (fun _ => builtContext_none) (sound_checkValue _)).bind fun value =>
      (sound_coerce fun given => ⟨built given.1, given.2⟩).andThen fun coerced => ?_
    split
    · exact .pure fun _ => trivial
    · exact .reportIf fun _ => .pure fun _ => trivial

theorem enumRow_sound {columns : List (String × Ty)} (value : Syntax.EnumValue)
    (built : given → ∀ column ∈ columns, column.2.isBuilt = true) :
    basis.Gives given (enumRow columns value) fun _ => True := by
  have row : basis.Gives given (rowValues columns value) fun values => ∀ value ∈ values, True := by
    refine .mapM fun item member => columnValue_sound _ fun given => built given item.1 ?_
    exact (List.mem_zipIdx' member).2 ▸ List.getElem_mem _
  exact .reportIf fun _ => row.mono id fun _ _ _ => trivial

def readColumns (found : FoundEnum) : Check (List EnumColumn) := do
  enterScope found.scope
  let columns ← found.decl.parameters.mapM fun parameter => do
    return (parameter.name, ← resolveType parameter.type)
  let rows ← found.decl.values.mapM (enumRow columns)
  return columns.zipIdx.map fun ((name, type), index) =>
    (⟨name, type, rows.map fun row => (row[index]?).getD (.int 0 type)⟩ : EnumColumn)

theorem declareColumns_run (found : FoundEnum) : declareColumns found = (do
    let filled ← readColumns found
    modifyTable (·.modifyEnum found.ref.id fun enum => { enum with columns := filled })) :=
  rfl

theorem readColumns_sound (found : FoundEnum) :
    basis.Gives given (readColumns found) fun columns => ∀ column ∈ columns, column.type.isBuilt = true := by
  have typed : basis.Gives given (found.decl.parameters.mapM fun parameter => do
      return (parameter.name, ← resolveType parameter.type)) fun columns => ∀ column ∈ columns, column.2.isBuilt = true :=
    .mapM fun parameter _ => (sound_resolveType _).bind fun _ => .pure fun given => given.2
  refine (sound_enterScope _).andThen fun _ => typed.bind fun columns =>
    (Basis.Gives.mapM fun value _ => enumRow_sound value fun given => given.2).andThen fun rows =>
      .pure fun given column member => ?_
  obtain ⟨item, inside, rfl⟩ := List.mem_map.mp member
  exact given.2 item.1 ((List.mem_zipIdx' inside).2 ▸ List.getElem_mem _)

end

def bareBasis (table : Declarations) : Basis :=
  ⟨table, fun _ => [], 0, 0⟩

def Basis.seen (table : Declarations) (state : State) : Basis :=
  ⟨table, fun enum => (state.table.enumDef enum).columns, 0, 0⟩

theorem bare_within_seen (table : Declarations) (state : State) : (bareBasis table).Within (.seen table state) where
  functions := Nat.le_refl _
  names _ shape names := by
    cases shape with
    | enumData _ _ _ => exact absurd names (Nat.not_lt_zero _)
    | _ => exact names

structure Suits (table : Declarations) (state : State) : Prop where
  fits : (Basis.seen table state).Fits state
  fields : ∀ entry ∈ state.fieldStatements, (bareBasis table).HoldsBody entry.2

theorem declareColumns_develops (found : FoundEnum) (state : State) : Develops state (declareColumns found state).2 := by
  have read : (bareBasis state.table).Gives True (readColumns found) _ := readColumns_sound found
  rw [declareColumns_run]
  refine (read.develops state).trans ⟨fun accepted => accepted, ?_⟩
  exact ⟨Nat.le_refl _, fun _ _ => .inl rfl, Nat.le_refl _⟩

theorem modifyEnum_columns (table : Declarations) (id enum : EnumId) (filled : List EnumColumn) :
    ((table.modifyEnum id fun enum => { enum with columns := filled }).enumDef enum).columns =
        (table.enumDef enum).columns ∨
      ((table.modifyEnum id fun enum => { enum with columns := filled }).enumDef enum).columns = filled :=
  (getD_modify_either table.enums id enum _ default).imp (congrArg EnumDef.columns) (congrArg EnumDef.columns)

theorem declareColumns_suits {found : FoundEnum} (suits : Suits table state)
    (leads : (bareBasis table).LeadsFrom (declareColumns found state).2) :
    Suits table (declareColumns found state).2 := by
  have read : (Basis.seen table state).Gives True (readColumns found) _ := readColumns_sound found
  have fields := fieldStatements_of_registry (read.registry state)
  have run : declareColumns found state = ((), { (readColumns found state).2 with
      table := (readColumns found state).2.table.modifyEnum found.ref.id fun enum =>
        { enum with columns := (readColumns found state).1 } }) := rfl
  rw [run] at leads ⊢
  obtain ⟨fits, built⟩ := read.holds trivial state suits.fits
    ⟨leads.accepted, leads.table.size, leads.table.symbol, leads.table.functions⟩
  generalize readColumns found state = result at fits built fields leads ⊢
  have bare : ∀ entry ∈ result.2.fieldStatements, (bareBasis table).HoldsBody entry.2 :=
    fields ▸ suits.fields
  refine ⟨fits.onto _ (Nat.le_refl _) (Nat.zero_le _) (Nat.zero_le _) (fun _ => rfl) (fun enum => ?_)
    fun entry member => (bare_within_seen table _).holdsStmts (bare entry member), bare⟩
  show ∀ column ∈ ((result.2.table.modifyEnum _ _).enumDef enum).columns, _
  rcases modifyEnum_columns result.2.table found.ref.id enum result.1 with same | same
  · rw [same, fits.columns]
    exact fits.columnTypes enum
  · rw [same]
    exact built

theorem declareAllColumns_develops (found : List FoundEnum) (state : State) :
    Develops state (found.forM declareColumns state).2 :=
  forM_keeps (fun item _ between sofar => sofar.trans (declareColumns_develops item between)) (.refl state)

theorem declareAllColumns {found : List FoundEnum} (suits : Suits table state)
    (leads : (bareBasis table).LeadsFrom (found.forM declareColumns state).2) :
    Suits table (found.forM declareColumns state).2 := by
  induction found generalizing state with
  | nil => exact suits
  | cons first rest ih => exact ih (declareColumns_suits suits ((declareAllColumns_develops rest _).leads leads)) leads

section

theorem sound_addSymbol (fitting : given → basis.FitsSymbol symbol) :
    basis.Builds given (addSymbol symbol) fun _ => True where
  develops state := ⟨fun accepted => accepted, state.table.addSymbol_extends symbol⟩
  holds given state fits _ :=
    have declares : Declares 0 symbol state (state.withSymbol symbol) := ⟨.ofMarked (.refl _)⟩
    ⟨fits.declares (fitting given) declares, trivial⟩

theorem defineBuiltins_sound : basis.Builds given defineBuiltins fun _ => True := by
  have size : basis.FitsSymbol ⟨"size", .nowhere, .int, false, .field none sizeFieldOffset⟩ :=
    ⟨rfl, fun _ same => (nomatch same), fun _ _ same => (nomatch same)⟩
  refine (sound_addSymbol fun _ => size).andThen fun size =>
    Basis.Builds.andThen (sound_noting fun _ => rfl) fun _ =>
      Basis.Builds.andThen (.forM fun type member => ?_) fun _ => .forM fun item member => ?_
  · have built : type.isBuilt = true := by
      have all : ∀ type ∈ [Ty.int, .char, .real, .string, .bool, .unit, .any, .nothing], type.isBuilt = true := by decide
      exact all type member
    exact (sound_define fun _ => fits_typeName built).toBuilds.andThen fun _ => .pure fun _ => trivial
  · have counted : item.2.2.isCounted = true := by
      have all : ∀ item ∈ [("null", (0 : Int32), Ty.null), ("true", 1, .bool), ("false", 0, .bool)],
          item.2.2.isCounted = true := by decide
      exact all item member
    exact (sound_define fun _ => fits_constant item.2.1 counted).toBuilds.andThen fun _ => .pure fun _ => trivial

theorem checkFile_sound (file : Syntax.FileTree) (scope : ScopeId) :
    basis.Builds given (checkFile file scope) fun file => basis.HoldsBody file.statements := by
  have ensured : basis.Builds given ensureTopFunction fun _ => True := by
    refine sound_get.toBuilds.andThen fun state => ?_
    split
    · exact sound_addFunction_then (fun _ => ⟨rfl, by simp [FunctionDef.received]⟩) fun id functions =>
        sound_noting fun _ => rfl
    · exact .pure fun _ => trivial
  have checked : basis.Gives given (do
      enterScope scope
      setFacts .start
      let statements ← inContext {} (checkStmts file.statements)
      countNode
      return (⟨file.name, statements⟩ : Typed.FileTree)) fun file => basis.HoldsBody file.statements :=
    (sound_enterScope _).andThen fun _ => (sound_setFacts fun _ => builtFacts_start).andThen fun _ =>
      (inContext_sound (fun _ => builtContext_none) ((checkStmts_gives file.statements).under fun _ => trivial)).bind
        fun _ => sound_countNode.andThen fun _ => .pure fun given => given.2
  unfold checkFile
  split
  · exact ensured.andThen fun _ => checked.toBuilds
  · exact checked.toBuilds

theorem checkFiles_sound (files : List (Syntax.FileTree × ScopeId)) :
    basis.Builds given (checkFiles files) fun program => ∀ file ∈ program, basis.HoldsBody file.statements :=
  .mapM fun file _ => checkFile_sound file.1 file.2

end

theorem bare_start (table : Declarations) (sources : SourceMap) : (bareBasis table).Fits { sources := sources } where
  size := Nat.zero_le _
  functions := Nat.zero_le _
  symbol _ known := absurd known (Nat.not_lt_zero _)
  result _ known := absurd known (Nat.not_lt_zero _)
  parameters _ _ member := nomatch member
  found _ member := nomatch member
  bound scope entry member := by
    have empty : (ScopeTree.empty.scope scope).symbols = [] := by cases scope <;> rfl
    exact absurd (empty ▸ member) List.not_mem_nil
  members _ _ member := nomatch member
  constructor _ _ made := nomatch made
  columns _ := rfl
  columnTypes _ _ member := nomatch member
  facts := builtFacts_start
  context := builtContext_none
  fields _ member := nomatch member

def declareBare (files : List Syntax.FileTree) : Check Unit := do
  files.forM declareTypes
  (← get).foundFunctions.forM declareFunction
  declareFileConstants (files.zip (← get).fileScopes)
  (← get).foundClasses.forM declareConstructor
  (← get).foundClasses.forM declareFields

theorem declareBare_sound (bare : basis.Bare) (files : List Syntax.FileTree) :
    basis.Builds True (declareBare files) fun _ => True :=
  (Basis.Builds.forM fun file _ => declareTypes_sound (fun _ => bare) file).andThen fun _ =>
    sound_get.toBuilds.andThen fun _ => (Basis.Builds.forM fun found _ => declareFunction_sound found).andThen fun _ =>
      sound_get.toBuilds.andThen fun _ =>
          Basis.Builds.andThen (.forM fun file _ => declareConstants_sound file.1 file.2) fun _ =>
        sound_get.toBuilds.andThen fun _ =>
            (Basis.Builds.forM fun found _ => declareConstructor_sound found).andThen fun _ =>
          sound_get.toBuilds.andThen fun _ => .forM fun found _ => declareFields_sound found

theorem identifyAll_run (files : List Syntax.FileTree) (built : State) :
    let bare := (declareBare files built).2
    let columns := (bare.foundEnums.forM declareColumns bare).2
    (identifyAll files built).2 = { columns with
      trace := columns.trace.push
          s!"{columns.table.symbols.size} symbols, {columns.table.functions.size} functions identified" } :=
  rfl

theorem Suits.ofBare (fits : (bareBasis table).Fits state) : Suits table state where
  fits := (bare_within_seen table state).fits fits (Nat.zero_le _) (Nat.zero_le _) (fun _ => rfl) fun enum => by
    show ∀ column ∈ (state.table.enumDef enum).columns, _
    rw [fits.columns]
    exact fun _ member => nomatch member
  fields := fits.fields

theorem declaredState_suits (sources : SourceMap) (files : List Syntax.FileTree) (table : Declarations)
    (leads : (bareBasis table).LeadsFrom (declaredState sources files)) : Suits table (declaredState sources files) := by
  have start := bare_start table sources
  have builtins : (bareBasis table).Builds True defineBuiltins _ := defineBuiltins_sound
  have building := builtins.holds trivial { sources := sources } start
  unfold declaredState at leads ⊢
  generalize (defineBuiltins { sources := sources }).2 = built at building leads ⊢
  have declaring := declareBare_sound (fun _ => rfl : (bareBasis table).Bare) files
  have fits : (bareBasis table).LeadsFrom (declareBare files built).2 →
      (bareBasis table).Fits (declareBare files built).2 :=
    fun leads => (declaring.holds trivial built (building ((declaring.develops built).leads leads)).1 leads).1
  rw [identifyAll_run] at leads ⊢
  generalize (declareBare files built).2 = bare at fits leads ⊢
  have columns := declareAllColumns_develops bare.foundEnums bare
  have leads : (bareBasis table).LeadsFrom (bare.foundEnums.forM declareColumns bare).2 := ⟨leads.accepted, leads.table⟩
  have suits := declareAllColumns (.ofBare (fits (columns.leads leads))) leads
  exact ⟨suits.fits.marked ⟨fun accepted => accepted, rfl, rfl, rfl, rfl, rfl⟩, suits.fields⟩

def Basis.ofAnalyzed (analyzed : Analyzed) : Basis :=
  ⟨analyzed.table, fun enum => (analyzed.table.enumDef enum).columns, 0, 0⟩

theorem checkFiles_suits {files : List (Syntax.FileTree × ScopeId)} {declared : State}
    (suits : Suits (checkFiles files declared).2.table declared) (quiet : (checkFiles files declared).2.Accepted) :
    let basis := Basis.seen (checkFiles files declared).2.table (checkFiles files declared).2
    (∀ file ∈ (checkFiles files declared).1, basis.HoldsBody file.statements) ∧
      basis.Fits (checkFiles files declared).2 := by
  have checking : (Basis.seen (checkFiles files declared).2.table declared).Builds True (checkFiles files) _ :=
    checkFiles_sound files
  obtain ⟨fits, holds⟩ := checking.holds trivial declared suits.fits ⟨quiet, .refl _⟩
  have same : Basis.seen (checkFiles files declared).2.table declared = .seen (checkFiles files declared).2.table
      (checkFiles files declared).2 :=
    congrArg (fun columns => Basis.mk _ columns 0 0) (funext fun enum => (fits.columns enum).symm)
  rw [← same]
  exact ⟨holds, fits⟩

theorem analyze_fits (sources : SourceMap) (files : List Syntax.FileTree)
    (accepted : (analyze sources files).hasErrors = false) :
    (∀ stmt ∈ (analyze sources files).program.statements, (Basis.ofAnalyzed (analyze sources files)).HoldsStmt stmt) ∧
      ∃ state, state.table = (analyze sources files).table ∧ (Basis.ofAnalyzed (analyze sources files)).Fits state := by
  obtain ⟨program, table, diagnostics⟩ := analyze_apply sources files
  have suits := declaredState_suits sources files
  generalize analyze sources files = analyzed at accepted program table diagnostics ⊢
  generalize declaredState sources files = declared at program table diagnostics suits
  have quiet : (checkFiles (files.zip declared.fileScopes) declared).2.Accepted := by
    intro diagnostic member
    have none := List.any_eq_false.mp accepted diagnostic (diagnostics ▸ member)
    simpa using none
  have checking : (bareBasis analyzed.table).Builds True (checkFiles (files.zip declared.fileScopes)) _ :=
    checkFiles_sound _
  have before := checking.develops declared
  obtain ⟨holds, fits⟩ := checkFiles_suits (suits _ ⟨before.accepted quiet, before.table⟩) quiet
  have same : Basis.ofAnalyzed analyzed = .seen (checkFiles (files.zip declared.fileScopes) declared).2.table
      (checkFiles (files.zip declared.fileScopes) declared).2 := by
    unfold Basis.ofAnalyzed Basis.seen
    rw [table]
  rw [same]
  refine ⟨fun stmt member => ?_, _, table.symm, fits⟩
  obtain ⟨file, isFile, within⟩ := List.mem_flatMap.mp member
  rw [program] at isFile
  exact holds file isFile stmt within

theorem analyze_sound (sources : SourceMap) (files : List Syntax.FileTree)
    (accepted : (analyze sources files).hasErrors = false) :
    (∀ node ∈ (analyze sources files).program.exprs, (Basis.ofAnalyzed (analyze sources files)).Sound node) ∧
      ∀ id < (analyze sources files).table.symbols.size,
        (Basis.ofAnalyzed (analyze sources files)).FitsSymbol ((analyze sources files).table.symbol id) := by
  obtain ⟨holds, state, table, fits⟩ := analyze_fits sources files accepted
  refine ⟨fun node member => ?_, table ▸ fits.symbol⟩
  obtain ⟨stmt, inProgram, part⟩ := List.mem_flatMap.mp member
  exact Basis.HoldsAll.within (Basis.holdsStmt_iff.mp (holds stmt inProgram)).2.1 node part

end FplCompiler.Analysis
