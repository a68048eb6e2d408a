import FplCompiler.Source.Span

/-! What the compiler can find wrong with a program: the causes, their wording, codes and severities. Names of
types are given as text, so a cause can be worded without any table. -/

namespace FplCompiler

inductive Severity where
  | info
  | warning
  | error
  | hint
  deriving DecidableEq, Repr

def Severity.name : Severity → String
  | .info => "info"
  | .warning => "warning"
  | .error => "error"
  | .hint => "hint"

inductive Cause where
  -- tokens
  | invalidToken (text : String)
  | unterminatedString
  | unterminatedCharacter
  | indentation (got expected : Nat)
  -- syntax
  | malformedInt (text : String)
  | malformedReal (text : String)
  | malformedChar (text : String)
  | unexpectedToken (found expected : String)
  | mismatchedEnd (found expected : String)
  | parameterKeywordOutsideConstructor (keyword : String)
  | emptyVarargs
  | expectedEndOfLine (found : String)
  | expectedThenOrEndOfLine
  | missingBlock
  | missingWhenBlock
  | notAllowedInClass (found : String)
  -- names
  | undeclared (name : String)
  | duplicateSymbol (name previous : String) (previousSpan : Span)
  | duplicateFunction (signature previous : String) (previousSpan : Span)
  | notAValue (name : String)
  | unknownType (name : String)
  | notAType (name : String)
  | wrongTypeArgumentCount (name : String) (expected got : Nat)
  | nestedFunction
  | unresolvedDeclarationType (name : String)
  -- calls
  | noMatchingFunction (call : String) (candidates : List String)
  | ambiguousCall (call : String) (candidates : List String)
  | notCallable (type : String)
  | overloadedReference (name : String)
  | methodNotCalled (name : String)
  | notInstantiable (type : String)
  | arraySizeArguments
  -- types
  | typeMismatch (expected got : String)
  | invalidBinaryOperator (operator left right : String)
  | invalidUnaryOperator (operator type : String)
  | invalidCompoundAssign (operator type : String)
  | invalidErrorUnion (type : String)
  | invalidCast (source target : String)
  | invalidIsTest (type : String)
  | incompatibleBranches (thenType elseType : String)
  | invalidRange (type : String)
  | rangeOutsideFor
  | notIndexable (type : String)
  | cannotIterate (type : String)
  | cannotPrint (type : String)
  -- members
  | nullFieldAccess (field : String)
  | maybeNullAccess (field : String)
  | maybeErrorAccess (field : String)
  | noSuchField (type field : String)
  | noSuchEnumValue (enumName name : String)
  | enumValueArity (name : String) (expected got : Nat)
  -- flow
  | uninitialized (name : String)
  | maybeUninitialized (name : String)
  | mayAlreadyBeInitialised (name : String)
  | notMutable (name : String)
  | notAnLvalue
  | breakOutsideLoop
  | continueOutsideLoop
  | returnOutsideFunction
  | missingReturnValue (type : String)
  | missingReturn (name : String)
  | cannotFree (type : String)
  | possibleDoubleFree
  | possibleUseAfterFree (name : String)
  -- when statements and constants
  | invalidWhenType (type : String)
  | duplicateValue (value : String)
  | elseNotLast
  | notConstant

namespace Cause

def message : Cause → String
  | invalidToken text => s!"Invalid token '{text}'"
  | unterminatedString => "Unterminated string literal"
  | unterminatedCharacter => "Unterminated character literal"
  | indentation got expected => s!"Indentation error - got column {got}, expected {expected}"
  | malformedInt text => s!"Malformed integer literal '{text}'"
  | malformedReal text => s!"Malformed real literal '{text}'"
  | malformedChar text => s!"Malformed character literal '{text}'"
  | unexpectedToken found expected => s!"Got {found} when expecting {expected}"
  | mismatchedEnd found expected => s!"Got 'end {found}' when expecting 'end {expected}'"
  | parameterKeywordOutsideConstructor keyword => s!"'{keyword}' only allowed in constructors"
  | emptyVarargs => "Cannot have varargs with an empty parameter list"
  | expectedEndOfLine found => s!"Got '{found}' when expecting end of line"
  | expectedThenOrEndOfLine => "Expected 'then' or 'end of line'"
  | missingBlock => "Missing indented block"
  | missingWhenBlock => "Expected indented block after when"
  | notAllowedInClass found => s!"{found} not allowed in Class body"
  | undeclared name => s!"Undeclared identifier '{name}'"
  | duplicateSymbol name previous _ => s!"Duplicate symbol '{name}', first defined at {previous}"
  | duplicateFunction signature previous _ =>
    s!"Duplicate function '{signature}', first defined at {previous}"
  | notAValue name => s!"'{name}' is not a value"
  | unknownType name => s!"Unknown type '{name}'"
  | notAType name => s!"'{name}' is not a type"
  | wrongTypeArgumentCount name expected got =>
    s!"Type '{name}' expects {expected} type arguments, got {got}"
  | nestedFunction => "Functions can only be declared at file or class level"
  | unresolvedDeclarationType name => s!"Cannot resolve type for '{name}'"
  | noMatchingFunction call candidates =>
    let listed := String.intercalate ", " candidates
    s!"No functions match '{call}'. Candidates are: {listed}"
  | ambiguousCall call candidates =>
    let listed := String.intercalate ", " candidates
    s!"Ambiguous call to '{call}'. Candidates are: {listed}"
  | notCallable type => s!"Cannot call expression of type '{type}'"
  | overloadedReference name => s!"Cannot take a reference to overloaded function '{name}'"
  | methodNotCalled name => s!"Method '{name}' must be called"
  | notInstantiable type => s!"Cannot create an instance of '{type}'"
  | arraySizeArguments => "Array constructor takes a single Int size"
  | typeMismatch expected got => s!"Got type '{got}' when expecting '{expected}'"
  | invalidBinaryOperator operator left right =>
    s!"Invalid binary operator '{operator}' for types {left} and {right}"
  | invalidUnaryOperator operator type => s!"Invalid unary operator '{operator}' for type {type}"
  | invalidCompoundAssign operator type => s!"Operator '{operator}' not defined for type '{type}'"
  | invalidErrorUnion type => s!"Type '{type}' cannot be used in an error union"
  | invalidCast source target => s!"Cannot cast '{source}' to '{target}'"
  | invalidIsTest type => s!"'is' requires a nullable or error union, got '{type}'"
  | incompatibleBranches thenType elseType =>
    s!"Incompatible types '{thenType}' and '{elseType}' in if expression"
  | invalidRange type => s!"Invalid range of type '{type}'"
  | rangeOutsideFor => "Ranges can only be used in a for loop"
  | notIndexable type => s!"Cannot index into type '{type}'"
  | cannotIterate type => s!"Cannot iterate over type '{type}'"
  | cannotPrint type => s!"Cannot print values of type '{type}'"
  | nullFieldAccess field => s!"Cannot access field '{field}' of expression of type Null"
  | maybeNullAccess field => s!"Cannot access '{field}' as expression may be null"
  | maybeErrorAccess field => s!"Cannot access '{field}' as expression may be an error"
  | noSuchField type field => s!"Type '{type}' has no field named '{field}'"
  | noSuchEnumValue enumName name => s!"Enum '{enumName}' has no value '{name}'"
  | enumValueArity name expected got =>
    s!"Enum value '{name}' expects {expected} arguments, got {got}"
  | uninitialized name => s!"Symbol '{name}' is uninitialized"
  | maybeUninitialized name => s!"Symbol '{name}' may be uninitialized"
  | mayAlreadyBeInitialised name => s!"'{name}' may already be initialised"
  | notMutable name => s!"Symbol '{name}' is not mutable"
  | notAnLvalue => "Expression is not an lvalue"
  | breakOutsideLoop => "'break' outside of a loop"
  | continueOutsideLoop => "'continue' outside of a loop"
  | returnOutsideFunction => "'return' outside of a function"
  | missingReturnValue type => s!"Function must return a value of type '{type}'"
  | missingReturn name => s!"Function '{name}' must return a value"
  | cannotFree type => s!"Cannot free expression of type '{type}'"
  | possibleDoubleFree => "Possible double free"
  | possibleUseAfterFree _ => "possible use of freed object"
  | invalidWhenType type => s!"Invalid type '{type}' for when expression"
  | duplicateValue value => s!"Duplicate value '{value}'"
  | elseNotLast => "Else clause must be the last clause"
  | notConstant => "Expression is not a compile-time constant"

def code : Cause → String
  | invalidToken .. => "L0001"
  | unterminatedString => "L0002"
  | unterminatedCharacter => "L0003"
  | indentation .. => "L0005"
  | unexpectedToken .. => "P0001"
  | mismatchedEnd .. => "P0002"
  | parameterKeywordOutsideConstructor .. => "P0003"
  | emptyVarargs => "P0004"
  | malformedInt .. => "P0005"
  | malformedReal .. => "P0006"
  | malformedChar .. => "P0007"
  | expectedEndOfLine .. => "P0008"
  | expectedThenOrEndOfLine => "P0009"
  | missingBlock => "P0010"
  | missingWhenBlock => "P0011"
  | notAllowedInClass .. => "P0012"
  | undeclared .. => "A0001"
  | duplicateSymbol .. => "A0002"
  | duplicateFunction .. => "A0003"
  | notAValue .. => "A0004"
  | unknownType .. => "A0005"
  | notAType .. => "A0006"
  | wrongTypeArgumentCount .. => "A0007"
  | nestedFunction => "A0008"
  | noMatchingFunction .. => "A0009"
  | ambiguousCall .. => "A0010"
  | notCallable .. => "A0011"
  | overloadedReference .. => "A0012"
  | methodNotCalled .. => "A0013"
  | notInstantiable .. => "A0014"
  | arraySizeArguments => "A0015"
  | typeMismatch .. => "A0016"
  | invalidBinaryOperator .. => "A0017"
  | invalidUnaryOperator .. => "A0018"
  | invalidCompoundAssign .. => "A0019"
  | invalidErrorUnion .. => "A0020"
  | invalidCast .. => "A0021"
  | invalidIsTest .. => "A0022"
  | incompatibleBranches .. => "A0023"
  | invalidRange .. => "A0024"
  | notIndexable .. => "A0025"
  | cannotIterate .. => "A0026"
  | cannotPrint .. => "A0027"
  | nullFieldAccess .. => "A0028"
  | maybeNullAccess .. => "A0029"
  | maybeErrorAccess .. => "A0030"
  | noSuchField .. => "A0031"
  | noSuchEnumValue .. => "A0032"
  | enumValueArity .. => "A0033"
  | uninitialized .. => "A0034"
  | maybeUninitialized .. => "A0035"
  | mayAlreadyBeInitialised .. => "A0036"
  | notMutable .. => "A0037"
  | notAnLvalue => "A0038"
  | breakOutsideLoop => "A0039"
  | continueOutsideLoop => "A0040"
  | returnOutsideFunction => "A0041"
  | missingReturnValue .. => "A0042"
  | missingReturn .. => "A0043"
  | cannotFree .. => "A0044"
  | invalidWhenType .. => "A0045"
  | duplicateValue .. => "A0046"
  | elseNotLast => "A0047"
  | notConstant => "A0048"
  | unresolvedDeclarationType .. => "A0049"
  | rangeOutsideFor => "A0050"
  | possibleDoubleFree => "W0001"
  | possibleUseAfterFree .. => "W0002"

def severity : Cause → Severity
  | possibleDoubleFree => .warning
  | possibleUseAfterFree .. => .warning
  | _ => .error

def labels : Cause → List (Span × String)
  | duplicateSymbol _ _ span => [(span, "Previous definition here")]
  | duplicateFunction _ _ span => [(span, "Previous definition here")]
  | _ => []

def notes : Cause → List String
  | possibleUseAfterFree name => [s!"'{name}' was freed on some path reaching this use"]
  | _ => []

end Cause

end FplCompiler
