import FplCompiler.Analysis.Program
import FplCompiler.Proofs.StatementChecks

/-! The declaration and the check of a program, in parts. -/

namespace FplCompiler

namespace Syntax

inductive Definition where
  | function (span : Span)
  | constructor (span : Span)

mutual

/-- What a statement defines. Functions count at the level of a file and in classes only. -/
def Stmt.definitions (ofFile : Bool) : Stmt → List Definition
  | .mk (.functionDecl _ body) span => if ofFile then .function span :: definitionsIn false body else []
  | .mk (.classDecl _ body) span => .constructor span :: definitionsOfMethods body
  | .mk (.whileLoop _ body) _ | .mk (.repeatLoop body _) _ | .mk (.forLoop _ _ body) _ => definitionsIn false body
  | .mk (.ifChain clauses) _ => definitionsInClauses clauses
  | .mk (.whenCases _ clauses) _ => definitionsInCases clauses
  | _ => []

def definitionsIn (ofFile : Bool) : List Stmt → List Definition
  | [] => []
  | stmt :: rest => stmt.definitions ofFile ++ definitionsIn ofFile rest

def definitionsOfMethods : List Stmt → List Definition
  | [] => []
  | .mk (.functionDecl _ body) span :: rest => (.function span :: definitionsIn false body) ++ definitionsOfMethods rest
  | _ :: rest => definitionsOfMethods rest

def definitionsInClauses : List IfClause → List Definition
  | [] => []
  | .mk _ body _ :: rest => definitionsIn false body ++ definitionsInClauses rest

def definitionsInCases : List WhenClause → List Definition
  | [] => []
  | .mk _ body _ :: rest => definitionsIn false body ++ definitionsInCases rest

end

end Syntax

namespace Analysis

open Check

open Syntax (Definition)

def completeParameters (found : FoundClass) : Check FoundClass := do
  (found.head.typeParameters.zip found.ref.typeParameters).forM fun (name, type) => do
    let _ ← defineIn found.scope ⟨name, found.span, type, false, .typeName⟩
  modify fun state => { state with foundClasses := state.foundClasses ++ [found] }
  return found

def completeClass (found : FoundClass) (name : SymbolId) (scope fileScope : ScopeId) : Check FoundClass := do
  if scope ≠ fileScope then
    let _ ← bindIn found.scope found.head.name name
  completeParameters found

def defineEnumValues (enum : EnumRef) (scope : ScopeId) (values : List Syntax.EnumValue) : Check PUnit :=
  values.zipIdx.forM fun (value, index) => do
    let _ ← defineIn scope
      ⟨value.name, value.span, .enumeration enum, false, .constant (.int (Int32.ofNat index) (.enumeration enum))⟩

def noteDeclared (found : FoundFunction) (id : FunctionId) (function : FunctionInstance)
    (existing? : Option SymbolId) : Check Unit := do
  match existing? with
  | none => bindFirst function found.span found.owner found.cls
  | some existing => bindFurther function found.span existing
  modify fun state => { state with functionAt := (found.span, id, found.scope) :: state.functionAt }

def completeFunction (found : FoundFunction) (this : Option SymbolId) (parameters : List SymbolId) (returnType : Ty) :
    Check Unit := do
  let owner := (found.cls.map (·.name)).getD ""
  let id ← addLabelled owner found.head.name
    ⟨found.head.name, "", found.span, parameters, this, found.head.isVararg, returnType, found.cls.map (·.id), false⟩
  let function := (← get).table.instantiate id []
  noteDeclared found id function ((← get).scopes.lookupIn found.owner found.head.name)

def completeReturned (found : FoundFunction) (this : Option SymbolId) (parameters : List SymbolId)
    (returnType? : Option Syntax.TypeExpr) : Check Unit := do
  let returnType ←
    match returnType? with
    | some type => resolveType type
    | none => pure .unit
  completeFunction found this parameters returnType

def declareFileConstants (files : List (Syntax.FileTree × ScopeId)) : Check PUnit :=
  files.forM fun (file, scope) => declareConstants file scope

def rowValues (columns : List (String × Ty)) (value : Syntax.EnumValue) : Check (List Constant) :=
  columns.zipIdx.mapM fun ((_, type), index) => columnValue type value.arguments[index]?

def fieldStatements (found : FoundClass) (constructor : FunctionDef) : Check (List Typed.Stmt) := do
  let this := constructor.thisSymbol.getD 0
  let first ← (found.head.parameters.zip constructor.parameters).filterMapM fun (parameter, symbol) =>
    declareParameterField found this parameter symbol
  let second ← found.decls.filterMapM fun (decl, span) =>
    declareVariableField found this decl span
  return first ++ second

def State.insideConstructor (state : State) (scope : ScopeId) : State :=
  { state with
    scopes := state.scopes.enter scope
    facts := .start
    context := { returnType := some .unit } }

theorem declareFields_run (found : FoundClass) (state : State) :
    declareFields found state = (do
      match (state.table.classDef found.ref.id).constructor?, state.constructorScopes.lookup found.ref.id with
      | some id, some scope =>
        let constructor ← getFunction id
        enterScope scope
        setFacts .start
        let statements ← inContext { returnType := some .unit } (fieldStatements found constructor)
        let bytes := (← getClass found.ref.id).layout.used
        note s!"class {found.head.name} has {bytes} bytes of fields"
        modify fun state =>
          { state with fieldStatements := (found.ref.id, statements) :: state.fieldStatements }
      | _, _ => pure () : Check Unit) state :=
  rfl

theorem declareFields_apply {found : FoundClass} {state : State} {id : FunctionId} {scope : ScopeId}
    (made : (state.table.classDef found.ref.id).constructor? = some id)
    (looked : state.constructorScopes.lookup found.ref.id = some scope) :
    let set := fieldStatements found (state.table.function id) (state.insideConstructor scope)
    declareFields found state = ((), { set.2 with
      context := state.context
      trace := set.2.trace.push
        s!"class {found.head.name} has {(set.2.table.classDef found.ref.id).layout.used} bytes of fields"
      fieldStatements := (found.ref.id, set.1) :: set.2.fieldStatements }) := by
  rw [declareFields_run, made, looked]
  rfl

theorem declareFields_cases (found : FoundClass) (state : State) :
    (declareFields found state).2 = state ∨ ∃ id scope, (state.table.classDef found.ref.id).constructor? = some id ∧
      state.constructorScopes.lookup found.ref.id = some scope := by
  cases made : (state.table.classDef found.ref.id).constructor? with
  | none =>
    rw [declareFields_run, made]
    exact .inl rfl
  | some id =>
    cases looked : state.constructorScopes.lookup found.ref.id with
    | none =>
      rw [declareFields_run, made, looked]
      exact .inl rfl
    | some scope => exact .inr ⟨id, scope, rfl, rfl⟩

def noteTop (file : Syntax.FileTree) : Check Unit := do
  if file.statements.any isExecutable then ensureTopFunction

def State.insideFile (state : State) (scope : ScopeId) : State :=
  { state with
    scopes := state.scopes.enter scope
    facts := .start
    context := {} }

theorem checkFile_apply (file : Syntax.FileTree) (scope : ScopeId) (state : State) :
    let noted := (noteTop file state).2
    let checked := checkStmts file.statements (noted.insideFile scope)
    checkFile file scope state = (⟨file.name, checked.1⟩, { checked.2 with
      context := noted.context
      nodeCount := checked.2.nodeCount + 1 }) := by
  unfold checkFile noteTop
  by_cases executable : file.statements.any isExecutable = true
  · rw [if_pos executable, if_pos executable]
    rfl
  · rw [if_neg executable, if_neg executable]
    rfl

def identifyAll (files : List Syntax.FileTree) : Check Unit := do
  declareAll files
  let table := (← get).table
  note s!"{table.symbols.size} symbols, {table.functions.size} functions identified"

def declaredState (sources : SourceMap) (files : List Syntax.FileTree) : State :=
  (identifyAll files (defineBuiltins { sources := sources }).2).2

def checkFiles (files : List (Syntax.FileTree × ScopeId)) : Check Typed.Program :=
  files.mapM fun (file, scope) => checkFile file scope

theorem checkProgram_apply (sources : SourceMap) (files : List Syntax.FileTree) :
    let declared := declaredState sources files
    let checked := checkFiles (files.zip declared.fileScopes) declared
    checkProgram files { sources := sources } = (checked.1, { checked.2 with nodeCount := checked.2.nodeCount + 1 }) := by
  have rest : ∀ built : State, (do
      declareAll files
      let table := (← get).table
      note s!"{table.symbols.size} symbols, {table.functions.size} functions identified"
      let program ← (files.zip (← get).fileScopes).mapM fun (file, scope) => checkFile file scope
      countNode
      return program : Check Typed.Program) built =
        let declared := (identifyAll files built).2
        let checked := checkFiles (files.zip declared.fileScopes) declared
        (checked.1, { checked.2 with nodeCount := checked.2.nodeCount + 1 }) := fun built => rfl
  have begun : checkProgram files { sources := sources } = _ := bind_apply _ _ _
  exact begun.trans (rest (defineBuiltins { sources := sources }).2)

theorem analyze_apply (sources : SourceMap) (files : List Syntax.FileTree) :
    let declared := declaredState sources files
    let checked := checkFiles (files.zip declared.fileScopes) declared
    (analyze sources files).program = checked.1 ∧ (analyze sources files).table = checked.2.table ∧
      (analyze sources files).diagnostics = checked.2.diagnostics.toList := by
  unfold analyze
  rw [StateT.run, checkProgram_apply]
  exact ⟨rfl, rfl, rfl⟩

/--
A property of a check and of the definitions that it finds. The search for the types of a program has it if the
declarations of single ones have.
-/
structure Search (finds : {α : Type} → List Definition → Check α → Prop) : Prop where
  nothing : finds [] (pure ())
  bind : ∀ {α β : Type} {definitions further : List Definition} {first : Check α} {next : α → Check β},
    finds definitions first → (∀ result, finds further (next result)) → finds (definitions ++ further) (first >>= next)
  ofClass : ∀ head span decls scope fileScope,
    finds [.constructor span] (declareClass head span decls scope fileScope)
  ofEnum : ∀ decl span scope fileScope, finds [] (declareEnum decl span scope fileScope)
  ofFunction : ∀ head span owner cls, finds [.function span] (noteFunction head span owner cls)

variable {finds : {α : Type} → List Definition → Check α → Prop}

mutual

theorem Search.findTypes (search : Search finds) (scope fileScope : ScopeId) (ofFile : Bool) (stmts : List Syntax.Stmt) :
    finds (Syntax.definitionsIn ofFile stmts) (findTypes scope fileScope ofFile stmts) := by
  cases stmts with
  | nil => exact search.nothing
  | cons stmt rest =>
    exact search.bind (search.inStmt scope fileScope ofFile stmt) fun _ => search.findTypes scope fileScope ofFile rest

theorem Search.inStmt (search : Search finds) (scope fileScope : ScopeId) (ofFile : Bool) (stmt : Syntax.Stmt) :
    finds (stmt.definitions ofFile) (findTypesIn scope fileScope ofFile stmt) := by
  obtain ⟨shape, span⟩ := stmt
  cases shape with
  | classDecl head body =>
    exact search.bind (search.ofClass head span _ scope fileScope) fun found =>
      search.findMethods found.scope fileScope found.ref body
  | enumDecl decl => exact search.ofEnum decl span scope fileScope
  | functionDecl head body =>
    cases ofFile with
    | false => exact search.nothing
    | true =>
      exact search.bind (search.ofFunction head span scope none) fun functionScope =>
        search.findTypes functionScope fileScope false body
  | ifChain clauses => exact search.inClauses scope fileScope clauses
  | whenCases subject clauses => exact search.inCases scope fileScope clauses
  | whileLoop condition body => exact search.findTypes scope fileScope false body
  | repeatLoop body condition => exact search.findTypes scope fileScope false body
  | forLoop name iterable body => exact search.findTypes scope fileScope false body
  | _ => exact search.nothing

theorem Search.findMethods (search : Search finds) (classScope fileScope : ScopeId) (cls : ClassRef)
    (stmts : List Syntax.Stmt) :
    finds (Syntax.definitionsOfMethods stmts) (findMethods classScope fileScope cls stmts) := by
  cases stmts with
  | nil => exact search.nothing
  | cons stmt rest =>
    obtain ⟨shape, span⟩ := stmt
    cases shape with
    | functionDecl head body =>
      show finds ([_] ++ (Syntax.definitionsIn false body ++ Syntax.definitionsOfMethods rest)) _
      exact search.bind (search.ofFunction head span classScope (some cls)) fun methodScope =>
        search.bind (search.findTypes methodScope fileScope false body) fun _ =>
          search.findMethods classScope fileScope cls rest
    | _ => exact search.findMethods classScope fileScope cls rest

theorem Search.inClauses (search : Search finds) (scope fileScope : ScopeId) (clauses : List Syntax.IfClause) :
    finds (Syntax.definitionsInClauses clauses) (findTypesInClauses scope fileScope clauses) := by
  cases clauses with
  | nil => exact search.nothing
  | cons clause rest =>
    obtain ⟨condition, body, span⟩ := clause
    exact search.bind (search.findTypes scope fileScope false body) fun _ => search.inClauses scope fileScope rest

theorem Search.inCases (search : Search finds) (scope fileScope : ScopeId) (clauses : List Syntax.WhenClause) :
    finds (Syntax.definitionsInCases clauses) (findTypesInCases scope fileScope clauses) := by
  cases clauses with
  | nil => exact search.nothing
  | cons clause rest =>
    obtain ⟨values, body, span⟩ := clause
    exact search.bind (search.findTypes scope fileScope false body) fun _ => search.inCases scope fileScope rest

end

end Analysis

end FplCompiler
