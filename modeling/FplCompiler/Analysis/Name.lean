import FplCompiler.Analysis.Coercion

/-! The meaning of names used as values, and of literals. -/

namespace FplCompiler.Analysis

open Check

def checkLiteral (span : Span) : Syntax.Literal → Check Typed.Expr
  | .int value => node (.int value) span .int
  | .real value => node (.real value) span .real
  | .char value => node (.int (Int32.ofNat value.toNat)) span .char
  | .string value => node (.string value) span .string

def constantNode (span : Span) : Constant → Check Typed.Expr
  | .int value type => node (.int value) span type
  | .real value => node (.real value.toDouble) span .real
  | .string value => node (.string value) span .string

def variableShape (id : SymbolId) (symbol : Symbol) : Typed.ExprShape :=
  match symbol.kind with
  | .globalVar _ => .globalVar id
  | _ => .localVar id

/-- A read of a variable. Its type is the one that it is narrowed to; a union that holds a value is unwrapped. -/
def readVariable (id : SymbolId) (symbol : Symbol) (span : Span) (maybeFreed : Bool) : Check Typed.Expr := do
  let facts ← getFacts
  if facts.isUnset id then report (.uninitialized symbol.name) span
  else if facts.isMaybeUnset id then report (.maybeUninitialized symbol.name) span
  if !maybeFreed && facts.isFreed id then report (.possibleUseAfterFree symbol.name) span
  let type := facts.typeOf id symbol.type
  match symbol.type with
  | .errorUnion _ =>
    if type = symbol.type then node (variableShape id symbol) span type
    else node (.unwrap (← node (variableShape id symbol) span symbol.type)) span type
  | _ => node (variableShape id symbol) span type

def thisNode (this : SymbolId) (span : Span) : Check Typed.Expr := do
  node (.localVar this) span (← getSymbol this).type

def functionType (function : FunctionInstance) : Ty :=
  .function function.parameterTypes function.returnType function.isVararg

def functionValue (id : SymbolId) (name : String) (span : Span) :
    List FunctionInstance → Check Typed.Expr
  | [function] => do
    if (← getFunction function.function).owner.isSome then errorNode (.methodNotCalled name) span
    else node (.functionName id function.function) span (functionType function)
  | _ => errorNode (.overloadedReference name) span

def ownField (id : SymbolId) (symbol : Symbol) (span : Span) : Check Typed.Expr := do
  match ← lookupThis with
  | some this => node (.member (← thisNode this span) id) span symbol.type
  | none => errorNode (.notAValue symbol.name) span

def checkName (name : String) (span : Span) (maybeFreed : Bool) : Check Typed.Expr := do
  match ← lookup name with
  | none => errorNode (.undeclared name) span
  | some id =>
    let symbol ← getSymbol id
    match symbol.kind with
    | .localVar | .globalVar _ => readVariable id symbol span maybeFreed
    | .constant value => constantNode span value
    | .function overloads => functionValue id name span overloads
    | .field _ _ | .inlineField _ _ => ownField id symbol span
    | .typeName => errorNode (.notAValue name) span

end FplCompiler.Analysis
