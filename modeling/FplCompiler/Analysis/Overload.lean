import FplCompiler.Declaration.Symbol

/-! Choosing the function that a call reaches, and finding type arguments from the types of arguments. -/

namespace FplCompiler

namespace FunctionInstance

def acceptsEach (parameters arguments : List Ty) : Bool :=
  parameters.length = arguments.length &&
    (parameters.zip arguments).all fun (parameter, argument) => parameter.accepts argument

/-- Whether a call with arguments of these types fits. The last parameter of a vararg function takes all the remaining
arguments. -/
def fits (function : FunctionInstance) (arguments : List Ty) : Bool :=
  if function.isVararg then
    match function.parameterTypes.getLast? with
    | none => false
    | some element =>
      let fixed := function.parameterTypes.dropLast
      acceptsEach fixed (arguments.take fixed.length) &&
        (arguments.drop fixed.length).all element.accepts
  else acceptsEach function.parameterTypes arguments

end FunctionInstance

namespace Analysis

inductive Resolution where
  | found (function : FunctionInstance)
  | noMatch
  | ambiguous (functions : List FunctionInstance)

/-- Chooses the one function that fits. An erroneous argument fits anything, so that with one of them the first
function will do. -/
def resolveOverload (candidates : List FunctionInstance) (arguments : List Ty) : Resolution :=
  match candidates.filter (·.fits arguments) with
  | [] => .noMatch
  | [function] => .found function
  | first :: others =>
    if arguments.any Ty.isError then .found first else .ambiguous (first :: others)

def callText (name : String) (arguments : List Ty) : String :=
  name ++ "(" ++ Ty.parameterText arguments false ++ ")"

def bindOnce (bindings : Substitution) (key value : Ty) : Substitution :=
  if (bindings.lookup key).isSome then bindings else bindings ++ [(key, value)]

mutual

def unify (bindings : Substitution) : Ty → Ty → Substitution
  | .parameter name classId index, argument => bindOnce bindings (.parameter name classId index) argument
  | .array parameter, .array argument => unify bindings parameter argument
  | .array parameter, .inlineArray argument _ => unify bindings parameter argument
  | .range parameter, .range argument => unify bindings parameter argument
  | .nullable parameter, .nullable argument => unify bindings parameter argument
  | .errorUnion parameter, .errorUnion argument => unify bindings parameter argument
  | .nullable parameter, argument => unify bindings parameter argument
  | .errorUnion parameter, argument => unify bindings parameter argument
  | .object cls parameters, .object other arguments =>
    if cls = other then unifyAll bindings parameters arguments else bindings
  | _, _ => bindings

def unifyAll (bindings : Substitution) : List Ty → List Ty → Substitution
  | parameter :: parameters, argument :: arguments =>
    unifyAll (unify bindings parameter argument) parameters arguments
  | _, _ => bindings

end

def inferBindings (parameters arguments : List Ty) : Substitution :=
  unifyAll [] parameters arguments

end Analysis

end FplCompiler
