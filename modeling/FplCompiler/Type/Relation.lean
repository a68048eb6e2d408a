import FplCompiler.Type.Ty

/-! How types relate: which values may be stored where, and types seen through type arguments. -/

namespace FplCompiler

abbrev Substitution := List (Ty × Ty)

def Substitution.bind (bindings : Substitution) (key value : Ty) : Substitution :=
  if (bindings.lookup key).isSome then
    bindings.map fun binding => if binding.1 = key then (key, value) else binding
  else bindings ++ [(key, value)]

def Substitution.extend (first second : Substitution) : Substitution :=
  second.foldl (fun bindings binding => bindings.bind binding.1 binding.2) first

namespace Ty

def agrees (left right : Ty) : Bool :=
  left = right || left.isError || right.isError

def sameArguments (cls : ClassRef) (first second : List Ty) : Bool :=
  cls.typeParameters = first || cls.typeParameters = second ||
    (first.zip second).all fun (a, b) => a.agrees b

def accepts (destination source : Ty) : Bool :=
  destination = source ||
    match destination, source with
    | .error, _ => true
    | _, .error => true
    | .any, _ => true
    | _, .nothing => true
    | .nullable _, .null => true
    | .nullable inner, .nullable given => inner.accepts given
    | .nullable inner, _ => inner.accepts source
    | .errorUnion inner, .errorUnion given => inner.accepts given
    | .errorUnion _, .enumeration _ => true
    | .errorUnion inner, _ => inner.accepts source
    | .object cls arguments, .object other given => cls = other && sameArguments cls arguments given
    | _, _ => false

mutual

def substitute (bindings : Substitution) : Ty → Ty
  | .array element => .array (substitute bindings element)
  | .range element => .range (substitute bindings element)
  | .nullable inner => orNull (substitute bindings inner)
  | .errorUnion inner => orError (substitute bindings inner)
  | .vararg element => .vararg (substitute bindings element)
  | .inlineArray element count => .inlineArray (substitute bindings element) count
  | .function parameters result isVararg =>
    .function (substituteAll bindings parameters) (substitute bindings result) isVararg
  | .object cls arguments => .object cls (substituteAll bindings arguments)
  | .parameter name classId index =>
    (bindings.lookup (.parameter name classId index)).getD (.parameter name classId index)
  | .primitive kind => .primitive kind
  | .enumeration enum => .enumeration enum

def substituteAll (bindings : Substitution) : List Ty → List Ty
  | [] => []
  | type :: rest => substitute bindings type :: substituteAll bindings rest

end

def bindings : Ty → Substitution
  | .object cls arguments => cls.typeParameters.zip arguments
  | _ => []

end Ty

end FplCompiler
