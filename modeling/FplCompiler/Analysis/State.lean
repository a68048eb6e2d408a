import FplCompiler.Declaration.Table
import FplCompiler.Diagnostic.Report
import FplCompiler.Flow.Facts
import FplCompiler.Flow.Scope
import FplCompiler.Syntax.Tree
import FplCompiler.Typed.Tree

/-! The state of an analysis: what is declared, what names mean, what is known at the current point, and what was
reported. -/

namespace FplCompiler.Analysis

structure LoopFrame where
  breaks : List (Facts Ty) := []
  continues : List (Facts Ty) := []

/-- Where code is checked: the result type of the function around it, and the innermost loop. -/
structure Context where
  returnType : Option Ty := none
  frame : Option LoopFrame := none

/-- A function that was found but not yet declared: its parameters belong to its scope, its name to the owner's. -/
structure FoundFunction where
  head : Syntax.FunctionHead
  span : Span
  scope : ScopeId
  owner : ScopeId
  cls : Option ClassRef

structure FoundClass where
  head : Syntax.ClassHead
  span : Span
  decls : List (Syntax.VariableDecl × Span)
  ref : ClassRef
  scope : ScopeId

structure FoundEnum where
  decl : Syntax.EnumDecl
  ref : EnumRef
  scope : ScopeId

structure State where
  sources : SourceMap
  table : Declarations := {}
  scopes : ScopeTree := .empty
  facts : Facts Ty := .start
  context : Context := {}
  diagnostics : Array Diagnostic := #[]
  fileScopes : List ScopeId := []
  foundFunctions : List FoundFunction := []
  foundClasses : List FoundClass := []
  foundEnums : List FoundEnum := []
  functionAt : List (Span × FunctionId × ScopeId) := []
  constructorScopes : List (ClassId × ScopeId) := []
  fieldStatements : List (ClassId × List Typed.Stmt) := []
  globals : Area := .empty
  sizeSymbol : SymbolId := 0
  topFunction : Option FunctionId := none
  nodeCount : Nat := 0
  trace : Array String := #[]

abbrev Check := StateM State

namespace Check

def report (cause : Cause) (span : Span) : Check Unit :=
  modify fun state => { state with diagnostics := state.diagnostics.push ⟨cause, span⟩ }

def note (line : String) : Check Unit :=
  modify fun state => { state with trace := state.trace.push line }

def getSymbol (id : SymbolId) : Check Symbol := do
  return (← get).table.symbol id

def getFunction (id : FunctionId) : Check FunctionDef := do
  return (← get).table.function id

def getClass (id : ClassId) : Check ClassDef := do
  return (← get).table.classDef id

def getEnum (id : EnumId) : Check EnumDef := do
  return (← get).table.enumDef id

def modifyTable (change : Declarations → Declarations) : Check Unit :=
  modify fun state => { state with table := change state.table }

def addSymbol (symbol : Symbol) : Check SymbolId :=
  modifyGet fun state =>
    let (id, table) := state.table.addSymbol symbol
    (id, { state with table := table })

def addFunction (function : FunctionDef) : Check FunctionId :=
  modifyGet fun state =>
    let (id, table) := state.table.addFunction function
    (id, { state with table := table })

def modifyScopes (change : ScopeTree → ScopeTree) : Check Unit :=
  modify fun state => { state with scopes := change state.scopes }

def enterScope (scope : ScopeId) : Check Unit :=
  modifyScopes (·.enter scope)

def openScope (kind : ScopeKind) : Check ScopeId := do
  modifyScopes (·.push kind)
  return (← get).scopes.current

def closeScope : Check Unit :=
  modifyScopes ScopeTree.pop

def lookup (name : String) : Check (Option SymbolId) := do
  return (← get).scopes.lookup name

def lookupVariable (name : String) : Check (Option SymbolId) := do
  match ← lookup name with
  | some id => return if (← getSymbol id).isVariable then some id else none
  | none => return none

def bindIn (scope : ScopeId) (name : String) (symbol : SymbolId) : Check (Except SymbolId Unit) := do
  match (← get).scopes.defineIn scope name symbol with
  | .ok scopes =>
    modifyScopes fun _ => scopes
    return .ok ()
  | .error existing => return .error existing

def reportDuplicate (name : String) (span previousSpan : Span) : Check Unit := do
  report (.duplicateSymbol name ((← get).sources.location previousSpan) previousSpan) span

/-- Declares a symbol and binds its name in a scope. A name that is taken there is reported, and the symbol is declared
nevertheless. Names of a file are seen by all files, unless another file has taken them before. -/
def defineIn (scope : ScopeId) (symbol : Symbol) : Check SymbolId := do
  let id ← addSymbol symbol
  match ← bindIn scope symbol.name id with
  | .ok _ =>
    if ((← get).scopes.scope scope).kind = .file then
      let _ ← bindIn ScopeTree.global symbol.name id
  | .error existing => reportDuplicate symbol.name symbol.span (← getSymbol existing).span
  return id

def define (symbol : Symbol) : Check SymbolId := do
  defineIn (← get).scopes.current symbol

def getFacts : Check (Facts Ty) := do
  return (← get).facts

def setFacts (facts : Facts Ty) : Check Unit :=
  modify fun state => { state with facts := facts }

def modifyFacts (change : Facts Ty → Facts Ty) : Check Unit :=
  modify fun state => { state with facts := change state.facts }

def getContext : Check Context := do
  return (← get).context

def setContext (context : Context) : Check Unit :=
  modify fun state => { state with context := context }

def inContext {α : Type} (context : Context) (step : Check α) : Check α := do
  let outer ← getContext
  setContext context
  let result ← step
  setContext outer
  return result

def setFrame (frame : Option LoopFrame) : Check Unit := do
  setContext { ← getContext with frame := frame }

def inLoop {α : Type} (step : Check α) : Check (α × LoopFrame) := do
  let outer := (← getContext).frame
  setFrame (some {})
  let result ← step
  let frame := (← getContext).frame.getD {}
  setFrame outer
  return (result, frame)

def countNode : Check Unit :=
  modify fun state => { state with nodeCount := state.nodeCount + 1 }

def node (shape : Typed.ExprShape) (span : Span) (type : Ty) : Check Typed.Expr := do
  countNode
  return .mk shape span type

def statement (statement : Typed.Stmt) : Check Typed.Stmt := do
  countNode
  return statement

def silentError (message : String) (span : Span) : Check Typed.Expr :=
  node (.error message) span .error

def errorNode (cause : Cause) (span : Span) : Check Typed.Expr := do
  report cause span
  silentError cause.message span

def errorStatement (cause : Cause) (span : Span) : Check Typed.Stmt := do
  report cause span
  statement (.error cause.message)

end Check

end FplCompiler.Analysis
