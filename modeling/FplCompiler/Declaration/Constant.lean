import FplCompiler.Number.Real
import FplCompiler.Type.Ty

/-! Values that are known before a program runs, and the data that code refers to by address. -/

namespace FplCompiler

/-- A value known before the program runs. An integer has a type, since characters, truth values, enum values and null
are integers too. -/
inductive Constant where
  | int (value : Int32) (type : Ty)
  | real (value : Single)
  | string (value : String)
  deriving DecidableEq, Repr

namespace Constant

def text : Constant → String
  | int value _ => toString value
  | real value => value.text
  | string value => value

def same : Constant → Constant → Bool
  | int value type, int other otherType => value = other && type = otherType
  | real value, real other => value.same other
  | string value, string other => value = other
  | _, _ => false

end Constant

inductive StaticData where
  | string (index : Nat)
  | classDescriptor (name : String)
  | enumTable (enum column : String)
  | function (label : String)
  deriving DecidableEq, Repr

def StaticData.label : StaticData → String
  | string index => s!"OBJ{index}"
  | classDescriptor name => name ++ "/class"
  | enumTable enum column => enum ++ "/" ++ column
  | function label => label

/-- Texts in the order of their first use, with a table of the index of each. -/
structure StringPool where
  texts : Array String
  indexes : List (String × Nat)
  listed : indexes = texts.toList.zipIdx
  deriving DecidableEq, Repr

namespace StringPool

def empty : StringPool :=
  ⟨#[], [], rfl⟩

instance : Inhabited StringPool :=
  ⟨empty⟩

def add (pool : StringPool) (text : String) : StringPool where
  texts := pool.texts.push text
  indexes := pool.indexes ++ [(text, pool.texts.size)]
  listed := by simp [pool.listed, List.zipIdx_append]

def intern (pool : StringPool) (text : String) : Nat × StringPool :=
  match pool.indexes.lookup text with
  | some index => (index, pool)
  | none => (pool.texts.size, pool.add text)

end StringPool

end FplCompiler
