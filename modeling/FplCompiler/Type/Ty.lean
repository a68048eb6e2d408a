/-! Types. A type is a tree, so that two types are the same exactly when they look the same; classes and enums are
named by what identifies them, and their contents are declared elsewhere. -/

namespace FplCompiler

inductive Primitive where
  | unit | null | bool | char | int | real | string | any | nothing | error
  deriving DecidableEq, Repr

def Primitive.name : Primitive → String
  | unit => "Unit"
  | null => "Null"
  | bool => "Bool"
  | char => "Char"
  | int => "Int"
  | real => "Real"
  | string => "String"
  | any => "Any"
  | nothing => "Nothing"
  | error => "Error"

structure ClassRef where
  id : Nat
  name : String
  parameters : List String
  deriving DecidableEq, Repr, Inhabited

structure EnumRef where
  id : Nat
  name : String
  deriving DecidableEq, Repr, Inhabited

inductive Ty where
  | primitive (kind : Primitive)
  | array (element : Ty)
  | range (element : Ty)
  | nullable (inner : Ty)
  | errorUnion (inner : Ty)
  | vararg (element : Ty)
  | inlineArray (element : Ty) (count : Nat)
  | function (parameters : List Ty) (result : Ty) (isVararg : Bool)
  | object (cls : ClassRef) (arguments : List Ty)
  | parameter (name : String) (classId : Nat) (index : Nat)
  | enumeration (enum : EnumRef)
  deriving Repr

namespace Ty

@[match_pattern] abbrev unit : Ty := .primitive .unit
@[match_pattern] abbrev null : Ty := .primitive .null
@[match_pattern] abbrev bool : Ty := .primitive .bool
@[match_pattern] abbrev char : Ty := .primitive .char
@[match_pattern] abbrev int : Ty := .primitive .int
@[match_pattern] abbrev real : Ty := .primitive .real
@[match_pattern] abbrev string : Ty := .primitive .string
@[match_pattern] abbrev any : Ty := .primitive .any
@[match_pattern] abbrev nothing : Ty := .primitive .nothing
@[match_pattern] abbrev error : Ty := .primitive .error

instance : Inhabited Ty :=
  ⟨error⟩

mutual

def same : Ty → Ty → Bool
  | .primitive a, .primitive b => a == b
  | .array a, .array b => same a b
  | .range a, .range b => same a b
  | .nullable a, .nullable b => same a b
  | .errorUnion a, .errorUnion b => same a b
  | .vararg a, .vararg b => same a b
  | .inlineArray a m, .inlineArray b n => same a b && m == n
  | .function p a v, .function q b w => sameList p q && same a b && v == w
  | .object c p, .object d q => c == d && sameList p q
  | .parameter s c i, .parameter t d j => s == t && c == d && i == j
  | .enumeration a, .enumeration b => a == b
  | _, _ => false

def sameList : List Ty → List Ty → Bool
  | [], [] => true
  | a :: p, b :: q => same a b && sameList p q
  | _, _ => false

end

mutual

theorem same_iff : ∀ left right : Ty, same left right = true ↔ left = right
  | .primitive _, right => by cases right <;> simp [same]
  | .array a, right => by
    cases right <;> simp [same]
    exact same_iff a _
  | .range a, right => by
    cases right <;> simp [same]
    exact same_iff a _
  | .nullable a, right => by
    cases right <;> simp [same]
    exact same_iff a _
  | .errorUnion a, right => by
    cases right <;> simp [same]
    exact same_iff a _
  | .vararg a, right => by
    cases right <;> simp [same]
    exact same_iff a _
  | .inlineArray a _, right => by
    cases right <;> simp [same]
    simp [same_iff a _]
  | .function p a _, right => by
    cases right <;> simp [same]
    simp [same_iff a _, sameList_iff p _, and_assoc]
  | .object _ p, right => by
    cases right <;> simp [same]
    simp [sameList_iff p _]
  | .parameter _ _ _, right => by cases right <;> simp [same, and_assoc]
  | .enumeration _, right => by cases right <;> simp [same]

theorem sameList_iff : ∀ left right : List Ty, sameList left right = true ↔ left = right
  | [], right => by cases right <;> simp [sameList]
  | a :: p, right => by
    cases right <;> simp [sameList]
    simp [same_iff a _, sameList_iff p _]

end

instance : DecidableEq Ty :=
  fun left right => decidable_of_iff _ (same_iff left right)

def isValue : Ty → Bool
  | .int | .real | .char | .bool | .unit | .enumeration _ => true
  | _ => false

def isError (type : Ty) : Bool :=
  type = .error

/-- `T?`. Where there is no null to add the type stays as it is. -/
def orNull (inner : Ty) : Ty :=
  match inner with
  | .error | .null | .nullable _ => inner
  | other => if other.isValue then other else .nullable other

def orError (inner : Ty) : Ty :=
  match inner with
  | .error | .errorUnion _ => inner
  | other => .errorUnion other

def fitsErrorUnion : Ty → Bool
  | .string | .any | .error | .array _ | .object _ _ | .function _ _ _ => true
  | _ => false

def isHeapReference : Ty → Bool
  | .string | .array _ | .object _ _ => true
  | _ => false

def withoutNull : Ty → Ty
  | .nullable inner => inner
  | type => type

def promoted : Ty → Ty
  | .char => .int
  | type => type

def element? : Ty → Option Ty
  | .array element | .range element | .vararg element | .inlineArray element _ => some element
  | .string => some .char
  | _ => none

def isReturned : Ty → Bool
  | .unit | .nothing => false
  | _ => true

def joinParameters (texts : List String) (isVararg : Bool) : String :=
  let joined := ",".intercalate texts
  if isVararg && !texts.isEmpty then joined ++ "..." else joined

mutual

def text : Ty → String
  | .primitive kind => kind.name
  | .array element => "Array<" ++ text element ++ ">"
  | .range element => "Range<" ++ text element ++ ">"
  | .nullable inner => text inner ++ "?"
  | .errorUnion inner => text inner ++ "!"
  | .vararg element => text element ++ "..."
  | .inlineArray element count => "inline Array<" ++ text element ++ ">(" ++ toString count ++ ")"
  | .function parameters result isVararg =>
    "(" ++ joinParameters (texts parameters) isVararg ++ ")->" ++ text result
  | .object cls [] => cls.name
  | .object cls arguments => cls.name ++ "<" ++ ",".intercalate (texts arguments) ++ ">"
  | .parameter name _ _ => name
  | .enumeration enum => enum.name

def texts : List Ty → List String
  | [] => []
  | type :: rest => text type :: texts rest

end

def parameterText (parameters : List Ty) (isVararg : Bool) : String :=
  joinParameters (texts parameters) isVararg

end Ty

def ClassRef.typeParameters (cls : ClassRef) : List Ty :=
  cls.parameters.mapIdx fun index name => .parameter name cls.id index

def ClassRef.selfType (cls : ClassRef) : Ty :=
  .object cls cls.typeParameters

end FplCompiler
