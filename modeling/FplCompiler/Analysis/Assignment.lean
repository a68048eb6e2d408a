import FplCompiler.Analysis.Expression

/-! Declarations of variables and constants, and assignments. -/

namespace FplCompiler.Analysis

open Check

def declaredType (name : String) (type : Option Syntax.TypeExpr) (value : Option Typed.Expr) (span : Span) :
    Check Ty := do
  match type, value with
  | some type, _ => resolveType type
  | none, some value => return value.type
  | none, none => errorType (.unresolvedDeclarationType name) span

def checkDeclared (decl : Syntax.VariableDecl) (span : Span) : Check (Option Typed.Expr × Ty) := do
  let value ← decl.value.mapM checkValue
  let type ← declaredType decl.name decl.type value span
  return (← value.mapM (coerce type), type)

def reserveGlobal (type : Ty) : Check Nat :=
  modifyGet fun state =>
    let (offset, globals) := state.globals.reserve type.size type.alignment
    (offset, { state with globals := globals })

def checkVariable (decl : Syntax.VariableDecl) (span : Span) : Check Typed.Stmt := do
  let (value, type) ← checkDeclared decl span
  let kind ←
    if (← get).scopes.currentKind = .file then pure (.globalVar (← reserveGlobal type)) else pure .localVar
  let id ← define ⟨decl.name, span, type, decl.isMutable, kind⟩
  modifyFacts fun facts =>
    match value with
    | some value => factsAfterAssign facts id type (storedType value)
    | none => facts.declareUnset id
  statement (.declare id value)

def defineConstant (decl : Syntax.ConstDecl) (span : Span) : Check Unit := do
  let value ← inContext {} (checkValue decl.value)
  let value ←
    match decl.type with
    | some type => coerce (← resolveType type) value
    | none => pure value
  let (constant, type) ←
    match value.constant? with
    | some constant => pure (constant, value.type)
    | none =>
      if !value.type.isError then report .notConstant decl.value.span
      pure (.int 0 .error, .error)
  let _ ← define ⟨decl.name, span, type, false, .constant constant⟩

def targetError? (target : Typed.Expr) : Check (Option Typed.Stmt) := do
  match target.shape with
  | .member _ field =>
    let field ← getSymbol field
    if field.isMutable then return none
    else return some (← errorStatement (.notMutable field.name) target.span)
  | .index array _ =>
    if array.type = .string then return some (← errorStatement .notAnLvalue target.span) else return none
  | .error message => return some (.error message)
  | _ => return some (← errorStatement .notAnLvalue target.span)

def assignNode (op : Typed.AssignOp) (target value : Typed.Expr) (span : Span) : Check Typed.Stmt := do
  match op with
  | .replace => statement (.assign op target (← coerce target.type value))
  | _ =>
    match target.type.promoted with
    | .int | .error => statement (.assign op target (← coerce target.type.promoted value))
    | _ => errorStatement (.invalidCompoundAssign op.symbol target.type.text) span

def assignPlace (op : Typed.AssignOp) (target value : Typed.Expr) (span : Span) : Check Typed.Stmt := do
  match ← targetError? target with
  | some error => return error
  | none => assignNode op target value span

def reportReassignment (id : SymbolId) (symbol : Symbol) (span : Span) : Check Unit := do
  let facts ← getFacts
  if !symbol.isMutable && !facts.isUnset id then
    if facts.isMaybeUnset id then report (.mayAlreadyBeInitialised symbol.name) span
    else report (.notMutable symbol.name) span

def assignVariable (op : Typed.AssignOp) (id : SymbolId) (symbol : Symbol) (value : Typed.Expr)
    (targetSpan span : Span) : Check Typed.Stmt := do
  reportReassignment id symbol targetSpan
  match op with
  | .replace =>
    let target ← node (variableShape id symbol) targetSpan symbol.type
    let result ← assignNode op target value span
    match result with
    | .assign _ _ value =>
      modifyFacts fun facts => factsAfterAssign facts id symbol.type (storedType value)
    | _ => pure ()
    return result
  | _ =>
    let target ← readVariable id symbol targetSpan false
    let result ← assignNode op target value span
    modifyFacts (·.reassign id)
    return result

def assignName (op : Typed.AssignOp) (name : String) (value : Check Typed.Expr) (targetSpan span : Span) :
    Check Typed.Stmt := do
  match ← lookup name with
  | none =>
    let _ ← value
    errorStatement (.undeclared name) targetSpan
  | some id =>
    let symbol ← getSymbol id
    match symbol.kind with
    | .localVar | .globalVar _ => assignVariable op id symbol (← value) targetSpan span
    | .field _ _ | .inlineField _ _ =>
      let target ← checkName name targetSpan true
      assignPlace op target (← value) span
    | _ =>
      let _ ← value
      errorStatement .notAnLvalue targetSpan

def assignOp : Syntax.AssignOp → Typed.AssignOp
  | .assign => .replace
  | .add => .add
  | .subtract => .subtract

def checkAssign (operator : Syntax.AssignOp) (target value : Syntax.Expr) (span : Span) : Check Typed.Stmt := do
  let op := assignOp operator
  match target.shape with
  | .name name => assignName op name (checkValue value) target.span span
  | .member _ _ | .index _ _ =>
    let place ← checkValue target
    assignPlace op place (← checkValue value) span
  | _ =>
    let _ ← checkValue value
    errorStatement .notAnLvalue target.span

end FplCompiler.Analysis
