import FplCompiler.Declaration.Constant
import FplCompiler.Source.Span
import FplCompiler.Type.Layout
import FplCompiler.Type.Relation

/-! What names stand for: variables, functions, constants, fields and types. Declarations are numbered in the order in
which they are made. -/

namespace FplCompiler

abbrev SymbolId := Nat
abbrev FunctionId := Nat
abbrev ClassId := Nat
abbrev EnumId := Nat

structure FunctionInstance where
  function : FunctionId
  name : String
  parameterTypes : List Ty
  thisType : Option Ty
  isVararg : Bool
  returnType : Ty
  bindings : Substitution
  deriving Repr, Inhabited

namespace FunctionInstance

def mapType (function : FunctionInstance) (bindings : Substitution) : FunctionInstance :=
  { function with
    parameterTypes := Ty.substituteAll bindings function.parameterTypes
    thisType := function.thisType.map (Ty.substitute bindings)
    returnType := function.returnType.substitute bindings
    bindings := function.bindings.extend bindings }

def sameSignature (first second : FunctionInstance) : Bool :=
  first.isVararg = second.isVararg && first.parameterTypes = second.parameterTypes

def signature (function : FunctionInstance) : String :=
  function.name ++ "(" ++ Ty.parameterText function.parameterTypes function.isVararg ++ ")"

end FunctionInstance

def sizeFieldOffset : Int32 :=
  -4

inductive SymbolKind where
  | localVar
  | globalVar (offset : Nat)
  | function (overloads : List FunctionInstance)
  | constant (value : Constant)
  | field (owner : Option ClassId) (offset : Int32)
  | inlineField (owner : ClassId) (offset : Int32)
  | typeName
  deriving Repr, Inhabited

structure Symbol where
  name : String
  span : Span
  type : Ty
  isMutable : Bool
  kind : SymbolKind
  deriving Repr, Inhabited

namespace Symbol

def isVariable (symbol : Symbol) : Bool :=
  match symbol.kind with
  | .localVar | .globalVar _ => true
  | _ => false

def kindName (symbol : Symbol) : String :=
  match symbol.kind with
  | .localVar => "var"
  | .globalVar _ => "global"
  | .function _ => "function"
  | .constant _ => "constant"
  | .field _ _ => "field"
  | .inlineField _ _ => "inline field"
  | .typeName => "type"

def details (symbol : Symbol) : String :=
  let typed (tag : String) := tag ++ ":" ++ symbol.name ++ ":" ++ symbol.type.text
  match symbol.kind with
  | .localVar => typed "VAR"
  | .globalVar _ => typed "GLOBAL"
  | .function _ => "FUN:" ++ symbol.name
  | .constant _ => typed "CONST"
  | .field _ _ => typed "FIELD"
  | .inlineField _ _ => typed "INLINE"
  | .typeName => "TYPE:" ++ symbol.name

end Symbol

end FplCompiler
