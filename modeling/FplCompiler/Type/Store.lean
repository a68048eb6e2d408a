import FplCompiler.Type.Relation

/-!
A store that keeps every type once, under a number. A stored type names the types below it by their numbers. Each kind of
type has a table of its own, where a type is looked up before it is stored.
-/

namespace FplCompiler

inductive StoredType where
  | primitive (kind : Primitive)
  | array (element : Nat)
  | range (element : Nat)
  | nullable (inner : Nat)
  | errorUnion (inner : Nat)
  | vararg (element : Nat)
  | inlineArray (element count : Nat)
  | function (parameters : List Nat) (result : Nat) (isVararg : Bool)
  | object (cls : ClassRef) (arguments : List Nat)
  | parameter (name : String) (classId index : Nat)
  | enumeration (enum : EnumRef)
  deriving DecidableEq, Repr

namespace StoredType

def isValue : StoredType → Bool
  | .primitive .int | .primitive .real | .primitive .char | .primitive .bool | .primitive .unit | .enumeration _ => true
  | _ => false

def takesNull : StoredType → Bool
  | .primitive .error | .primitive .null | .nullable _ => false
  | stored => !stored.isValue

def takesError : StoredType → Bool
  | .primitive .error | .errorUnion _ => false
  | _ => true

/-- What a stored type stands for, given what the numbers in it stand for. -/
def type (typeAt : Nat → Ty) : StoredType → Ty
  | .primitive kind => .primitive kind
  | .array element => .array (typeAt element)
  | .range element => .range (typeAt element)
  | .nullable inner => .nullable (typeAt inner)
  | .errorUnion inner => .errorUnion (typeAt inner)
  | .vararg element => .vararg (typeAt element)
  | .inlineArray element count => .inlineArray (typeAt element) count
  | .function parameters result isVararg => .function (parameters.map typeAt) (typeAt result) isVararg
  | .object cls arguments => .object cls (arguments.map typeAt)
  | .parameter name classId index => .parameter name classId index
  | .enumeration enum => .enumeration enum

end StoredType

/-- The tables of a store. Type parameters have none: each is stored once, with its class. -/
inductive TypeTable where
  | primitives | arrays | ranges | nullables | errorUnions | varargs | inlineArrays | functions | instances | enums
  deriving DecidableEq, Repr

namespace TypeTable

/-- What the types of a table are looked up by. -/
def Key : TypeTable → Type
  | .primitives => Primitive
  | .arrays | .ranges | .nullables | .errorUnions | .varargs => Nat
  | .inlineArrays => Nat × Nat
  | .functions => List Nat × Nat × Bool
  | .instances => ClassRef × List Nat
  | .enums => EnumRef

instance : (table : TypeTable) → DecidableEq table.Key
  | .primitives => inferInstanceAs (DecidableEq Primitive)
  | .arrays | .ranges | .nullables | .errorUnions | .varargs => inferInstanceAs (DecidableEq Nat)
  | .inlineArrays => inferInstanceAs (DecidableEq (Nat × Nat))
  | .functions => inferInstanceAs (DecidableEq (List Nat × Nat × Bool))
  | .instances => inferInstanceAs (DecidableEq (ClassRef × List Nat))
  | .enums => inferInstanceAs (DecidableEq EnumRef)

def stored : (table : TypeTable) → table.Key → StoredType
  | .primitives, kind => .primitive kind
  | .arrays, element => .array element
  | .ranges, element => .range element
  | .nullables, inner => .nullable inner
  | .errorUnions, inner => .errorUnion inner
  | .varargs, element => .vararg element
  | .inlineArrays, key => .inlineArray key.1 key.2
  | .functions, key => .function key.1 key.2.1 key.2.2
  | .instances, key => .object key.1 key.2
  | .enums, enum => .enumeration enum

end TypeTable

structure TypeStore where
  types : List StoredType
  tables : (table : TypeTable) → List (table.Key × Nat)
  classes : List ClassRef
  enums : List EnumRef

namespace TypeStore

def get (store : TypeStore) (number : Nat) : StoredType :=
  store.types.getD number (.primitive .error)

/-- Stores a type and enters its number into its table. -/
def add (store : TypeStore) (table : TypeTable) (key : table.Key) : TypeStore :=
  { store with
    types := store.types ++ [table.stored key]
    tables := fun other =>
      if same : table = other then same ▸ ((key, store.types.length) :: store.tables table) else store.tables other }

def intern (store : TypeStore) (table : TypeTable) (key : table.Key) : Nat × TypeStore :=
  match (store.tables table).lookup key with
  | some number => (number, store)
  | none => (store.types.length, store.add table key)

/-- Makes a type. A union that adds nothing is what is put into it. -/
def make (store : TypeStore) : (table : TypeTable) → table.Key → Nat × TypeStore
  | .nullables, inner => if (store.get inner).takesNull then store.intern .nullables inner else (inner, store)
  | .errorUnions, inner => if (store.get inner).takesError then store.intern .errorUnions inner else (inner, store)
  | table, key => store.intern table key

def new : TypeStore :=
  [Primitive.unit, .null, .bool, .char, .int, .real, .string, .any, .nothing, .error].foldl
    (fun store kind => (store.intern .primitives kind).2) ⟨[], fun _ => [], [], []⟩

def newClass (store : TypeStore) (name : String) (parameters : List String) : TypeStore :=
  let number := store.classes.length
  { store with
    classes := store.classes ++ [⟨number, name, parameters⟩]
    types := store.types ++ parameters.mapIdx fun index name => .parameter name number index }

def newEnum (store : TypeStore) (name : String) : TypeStore :=
  { store with enums := store.enums ++ [⟨store.enums.length, name⟩] }

def mapNumbers (change : Nat → TypeStore → Nat × TypeStore) : List Nat → TypeStore → List Nat × TypeStore
  | [], store => ([], store)
  | number :: rest, store =>
    let (image, store) := change number store
    let (images, store) := mapNumbers change rest store
    (image :: images, store)

/-- The types below a type have smaller numbers, so that the bound is above all numbers that are met. -/
def substituteBelow (bindings : List (Nat × Nat)) : Nat → Nat → TypeStore → Nat × TypeStore
  | 0, number, store => (number, store)
  | bound + 1, number, store =>
    match store.get number with
    | .parameter _ _ _ => ((bindings.lookup number).getD number, store)
    | .array element => wrap .arrays id (substituteBelow bindings bound element store)
    | .range element => wrap .ranges id (substituteBelow bindings bound element store)
    | .nullable inner => wrap .nullables id (substituteBelow bindings bound inner store)
    | .errorUnion inner => wrap .errorUnions id (substituteBelow bindings bound inner store)
    | .vararg element => wrap .varargs id (substituteBelow bindings bound element store)
    | .inlineArray element count => wrap .inlineArrays (·, count) (substituteBelow bindings bound element store)
    | .function parameters result isVararg =>
      let (parameters, store) := mapNumbers (substituteBelow bindings bound) parameters store
      wrap .functions (parameters, ·, isVararg) (substituteBelow bindings bound result store)
    | .object cls arguments =>
      let (arguments, store) := mapNumbers (substituteBelow bindings bound) arguments store
      store.make .instances (cls, arguments)
    | .primitive _ | .enumeration _ => (number, store)
where
  wrap (table : TypeTable) (key : Nat → table.Key) (image : Nat × TypeStore) : Nat × TypeStore :=
    image.2.make table (key image.1)

def substitute (store : TypeStore) (bindings : List (Nat × Nat)) (number : Nat) : Nat × TypeStore :=
  if bindings.isEmpty then (number, store) else substituteBelow bindings (number + 1) number store

def addType (types : List Ty) (stored : StoredType) : List Ty :=
  types ++ [stored.type fun number => types.getD number .error]

/-- What the numbers of the stored types stand for, in their order. -/
def typesOf (types : List StoredType) : List Ty :=
  types.foldl addType []

def typeAt (store : TypeStore) (number : Nat) : Ty :=
  (typesOf store.types).getD number .error

end TypeStore

end FplCompiler
