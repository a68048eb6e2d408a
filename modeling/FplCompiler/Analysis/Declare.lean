import FplCompiler.Analysis.Assignment

/-! Declaring what a program has: first its types, wherever they stand, then its functions, and last its constants,
constructors, fields and enum columns. -/

namespace FplCompiler.Analysis

open Check

open Syntax (Stmt IfClause WhenClause)

def classVariables (body : List Stmt) : List (Syntax.VariableDecl × Span) :=
  body.filterMap fun
    | .mk (.variableDecl decl) span => some (decl, span)
    | _ => none

def declareClass (head : Syntax.ClassHead) (span : Span) (decls : List (Syntax.VariableDecl × Span))
    (scope fileScope : ScopeId) : Check FoundClass := do
  let cls ← modifyGet fun state =>
    let (cls, table) := state.table.addClass head.name span head.typeParameters
    (cls, { state with table := table })
  let name ← defineIn scope ⟨head.name, span, cls.selfType, false, .typeName⟩
  enterScope fileScope
  let classScope ← openScope .class_
  if scope ≠ fileScope then
    let _ ← bindIn classScope head.name name
  (head.typeParameters.zip cls.typeParameters).forM fun (name, type) => do
    let _ ← defineIn classScope ⟨name, span, type, false, .typeName⟩
  let found : FoundClass := ⟨head, span, decls, cls, classScope⟩
  modify fun state => { state with foundClasses := state.foundClasses ++ [found] }
  return found

def declareEnum (decl : Syntax.EnumDecl) (span : Span) (scope fileScope : ScopeId) : Check Unit := do
  let enum ← modifyGet fun state =>
    let (enum, table) := state.table.addEnum decl.name span
    (enum, { state with table := table })
  let type : Ty := .enumeration enum
  let _ ← defineIn scope ⟨decl.name, span, type, false, .typeName⟩
  enterScope fileScope
  let enumScope ← openScope .enum
  decl.values.zipIdx.forM fun (value, index) => do
    let _ ← defineIn enumScope
      ⟨value.name, value.span, type, false, .constant (.int (Int32.ofNat index) type)⟩
  modifyTable (·.modifyEnum enum.id fun enum => { enum with values := decl.values.map (·.name) })
  modify fun state => { state with foundEnums := state.foundEnums ++ [⟨decl, enum, enumScope⟩] }

def noteFunction (head : Syntax.FunctionHead) (span : Span) (owner : ScopeId) (cls : Option ClassRef) :
    Check ScopeId := do
  enterScope owner
  let scope ← openScope .function
  modify fun state =>
    { state with foundFunctions := state.foundFunctions ++ [⟨head, span, scope, owner, cls⟩] }
  return scope

mutual

def findTypes (scope fileScope : ScopeId) (ofFile : Bool) : List Stmt → Check Unit
  | [] => pure ()
  | stmt :: rest => do
    findTypesIn scope fileScope ofFile stmt
    findTypes scope fileScope ofFile rest

def findTypesIn (scope fileScope : ScopeId) (ofFile : Bool) : Stmt → Check Unit
  | .mk (.classDecl head body) span => do
    let found ← declareClass head span (classVariables body) scope fileScope
    findMethods found.scope fileScope found.ref body
  | .mk (.enumDecl decl) span => declareEnum decl span scope fileScope
  | .mk (.functionDecl head body) span => do
    if ofFile then
      let functionScope ← noteFunction head span scope none
      findTypes functionScope fileScope false body
  | .mk (.ifChain clauses) _ => findTypesInClauses scope fileScope clauses
  | .mk (.whenCases _ clauses) _ => findTypesInCases scope fileScope clauses
  | .mk (.whileLoop _ body) _ => findTypes scope fileScope false body
  | .mk (.repeatLoop body _) _ => findTypes scope fileScope false body
  | .mk (.forLoop _ _ body) _ => findTypes scope fileScope false body
  | _ => pure ()

def findMethods (classScope fileScope : ScopeId) (cls : ClassRef) : List Stmt → Check Unit
  | [] => pure ()
  | .mk (.functionDecl head body) span :: rest => do
    let methodScope ← noteFunction head span classScope (some cls)
    findTypes methodScope fileScope false body
    findMethods classScope fileScope cls rest
  | _ :: rest => findMethods classScope fileScope cls rest

def findTypesInClauses (scope fileScope : ScopeId) : List IfClause → Check Unit
  | [] => pure ()
  | .mk _ body _ :: rest => do
    findTypes scope fileScope false body
    findTypesInClauses scope fileScope rest

def findTypesInCases (scope fileScope : ScopeId) : List WhenClause → Check Unit
  | [] => pure ()
  | .mk _ body _ :: rest => do
    findTypes scope fileScope false body
    findTypesInCases scope fileScope rest

end

def declareTypes (file : Syntax.FileTree) : Check Unit := do
  enterScope ScopeTree.global
  let scope ← openScope .file
  modify fun state => { state with fileScopes := state.fileScopes ++ [scope] }
  findTypes scope scope true file.statements

def declareParameters (isVararg : Bool) : List Syntax.Parameter → Check (List SymbolId)
  | [] => return []
  | parameter :: rest => do
    let written ← resolveType parameter.type
    let type := if isVararg && rest.isEmpty then .array written else written
    let id ← define ⟨parameter.name, parameter.span, type, false, .localVar⟩
    return id :: (← declareParameters isVararg rest)

def declareThis (cls : ClassRef) (span : Span) : Check SymbolId :=
  define ⟨"this", span, cls.selfType, false, .localVar⟩

def addLabelled (owner name : String) (function : FunctionDef) : Check FunctionId := do
  let parameters := Ty.parameterText ((← get).table.parameterTypes function) function.isVararg
  addFunction { function with label := owner ++ "/" ++ name ++ "(" ++ parameters ++ ")" }

def bindFirst (function : FunctionInstance) (span : Span) (owner : ScopeId) (cls : Option ClassRef) :
    Check Unit := do
  let type : Ty := .function function.parameterTypes function.returnType function.isVararg
  let id ← defineIn owner ⟨function.name, span, type, false, .function [function]⟩
  match cls with
  | some cls =>
    modifyTable (·.modifyClass cls.id fun cls => { cls with members := (function.name, id) :: cls.members })
  | none => pure ()

def bindFurther (function : FunctionInstance) (span : Span) (existing : SymbolId) : Check Unit := do
  let symbol ← getSymbol existing
  match symbol.kind with
  | .function overloads =>
    match overloads.find? (·.sameSignature function) with
    | none =>
      modifyTable (·.modifySymbol existing fun symbol =>
        { symbol with kind := .function (overloads ++ [function]) })
    | some previous =>
      let previousSpan := (← getFunction previous.function).span
      report (.duplicateFunction function.signature ((← get).sources.location previousSpan) previousSpan) span
  | _ => reportDuplicate function.name span symbol.span

def declareFunction (found : FoundFunction) : Check Unit := do
  enterScope found.scope
  let this ← found.cls.mapM fun cls => declareThis cls found.span
  let parameters ← declareParameters found.head.isVararg found.head.parameters
  let returnType ←
    match found.head.returnType with
    | some type => resolveType type
    | none => pure .unit
  let owner := (found.cls.map (·.name)).getD ""
  let id ← addLabelled owner found.head.name
    ⟨found.head.name, "", found.span, parameters, this, found.head.isVararg, returnType,
      found.cls.map (·.id), false⟩
  let function := (← get).table.instantiate id []
  match (← get).scopes.lookupIn found.owner found.head.name with
  | none => bindFirst function found.span found.owner found.cls
  | some existing => bindFurther function found.span existing
  modify fun state => { state with functionAt := (found.span, id, found.scope) :: state.functionAt }

def declareConstants (file : Syntax.FileTree) (scope : ScopeId) : Check Unit := do
  enterScope scope
  file.statements.forM fun
    | .mk (.constDecl decl) span => defineConstant decl span
    | _ => pure ()

def declareConstructor (found : FoundClass) : Check Unit := do
  enterScope found.scope
  let scope ← openScope .function
  let this ← declareThis found.ref found.span
  let parameters ← declareParameters false found.head.parameters
  let id ← addLabelled found.head.name "new"
    ⟨found.head.name, "", found.span, parameters, some this, false, .unit, some found.ref.id, true⟩
  modifyTable (·.modifyClass found.ref.id fun cls => { cls with constructor? := some id })
  modify fun state =>
    { state with constructorScopes := (found.ref.id, scope) :: state.constructorScopes }

def addField (found : FoundClass) (name : String) (span : Span) (type : Ty) (isMutable : Bool) :
    Check SymbolId := do
  let id := found.ref.id
  let (offset, layout) := (← getClass id).layout.reserve type.size type.alignment
  modifyTable (·.modifyClass id fun cls => { cls with layout := layout })
  let kind : SymbolKind :=
    match type with
    | .inlineArray _ _ => .inlineField id (Int32.ofNat offset)
    | _ => .field (some id) (Int32.ofNat offset)
  let symbol ← defineIn found.scope ⟨name, span, type, isMutable, kind⟩
  modifyTable (·.modifyClass id fun cls =>
    { cls with members := (name, symbol) :: cls.members, fields := cls.fields ++ [symbol] })
  return symbol

def setField (this field : SymbolId) (value : Typed.Expr) (span : Span) : Check Typed.Stmt := do
  let object ← node (.localVar this) span (← getSymbol this).type
  let target ← node (.member object field) span (← getSymbol field).type
  statement (.assign .replace target value)

def declareParameterField (found : FoundClass) (this : SymbolId) (parameter : Syntax.Parameter)
    (symbol : SymbolId) : Check (Option Typed.Stmt) := do
  match parameter.kind with
  | .plain => return none
  | kind =>
    let type := (← getSymbol symbol).type
    let field ← addField found parameter.name parameter.span type (kind = .var)
    let value ← node (.localVar symbol) parameter.span type
    return some (← setField this field value parameter.span)

def declareVariableField (found : FoundClass) (this : SymbolId) (decl : Syntax.VariableDecl) (span : Span) :
    Check (Option Typed.Stmt) := do
  let (value, type) ← checkDeclared decl span
  let field ← addField found decl.name span type decl.isMutable
  value.mapM fun value => setField this field value span

def declareFields (found : FoundClass) : Check Unit := do
  match (← getClass found.ref.id).constructor?, (← get).constructorScopes.lookup found.ref.id with
  | some id, some scope =>
    let constructor ← getFunction id
    let this := constructor.thisSymbol.getD 0
    enterScope scope
    setFacts .start
    let statements ← inContext { returnType := some .unit } do
      let first ← (found.head.parameters.zip constructor.parameters).filterMapM fun (parameter, symbol) =>
        declareParameterField found this parameter symbol
      let second ← found.decls.filterMapM fun (decl, span) =>
        declareVariableField found this decl span
      return first ++ second
    let bytes := (← getClass found.ref.id).layout.used
    note s!"class {found.head.name} has {bytes} bytes of fields"
    modify fun state =>
      { state with fieldStatements := (found.ref.id, statements) :: state.fieldStatements }
  | _, _ => pure ()

def columnValue (type : Ty) (argument : Option Syntax.Expr) : Check Constant := do
  match argument with
  | none => return .int 0 type
  | some argument =>
    let value ← coerce type (← inContext {} (checkValue argument))
    match value.constant? with
    | some constant => return constant
    | none =>
      if !value.type.isError then report .notConstant argument.span
      return .int 0 type

def enumRow (columns : List (String × Ty)) (value : Syntax.EnumValue) : Check (List Constant) := do
  if value.arguments.length ≠ columns.length then
    report (.enumValueArity value.name columns.length value.arguments.length) value.span
  columns.zipIdx.mapM fun ((_, type), index) => columnValue type value.arguments[index]?

def declareColumns (found : FoundEnum) : Check Unit := do
  enterScope found.scope
  let columns ← found.decl.parameters.mapM fun parameter => do
    return (parameter.name, ← resolveType parameter.type)
  let rows ← found.decl.values.mapM (enumRow columns)
  let filled := columns.zipIdx.map fun ((name, type), index) =>
    (⟨name, type, rows.map fun row => (row[index]?).getD (.int 0 type)⟩ : EnumColumn)
  modifyTable (·.modifyEnum found.ref.id fun enum => { enum with columns := filled })

def declareAll (files : List Syntax.FileTree) : Check Unit := do
  files.forM declareTypes
  (← get).foundFunctions.forM declareFunction
  (files.zip (← get).fileScopes).forM fun (file, scope) => declareConstants file scope
  (← get).foundClasses.forM declareConstructor
  (← get).foundClasses.forM declareFields
  (← get).foundEnums.forM declareColumns

end FplCompiler.Analysis
