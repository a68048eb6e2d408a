import FplCompiler.Declaration.Symbol

/-! The declarations of a program: symbols, functions, classes and enums, each numbered in the order of declaration. -/

namespace FplCompiler

/-- One function body. A function with type parameters around it has one body for all its instances. -/
structure FunctionDef where
  name : String
  label : String
  span : Span
  parameters : List SymbolId
  thisSymbol : Option SymbolId
  isVararg : Bool
  returnType : Ty
  owner : Option ClassId
  isConstructor : Bool
  deriving Repr, Inhabited

structure ClassDef where
  ref : ClassRef
  span : Span
  members : List (String × SymbolId)
  fields : List SymbolId
  layout : Area
  constructor? : Option FunctionId
  deriving Repr, Inhabited

structure EnumColumn where
  name : String
  type : Ty
  values : List Constant
  deriving Repr, Inhabited

structure EnumDef where
  ref : EnumRef
  span : Span
  values : List String
  columns : List EnumColumn
  deriving Repr, Inhabited

def EnumDef.column? (enum : EnumDef) (name : String) : Option Nat :=
  enum.columns.findIdx? (·.name == name)

structure Declarations where
  symbols : Array Symbol := #[]
  functions : Array FunctionDef := #[]
  classes : Array ClassDef := #[]
  enums : Array EnumDef := #[]
  deriving Repr, Inhabited

namespace Declarations

def symbol (table : Declarations) (id : SymbolId) : Symbol :=
  table.symbols.getD id default

def function (table : Declarations) (id : FunctionId) : FunctionDef :=
  table.functions.getD id default

def classDef (table : Declarations) (id : ClassId) : ClassDef :=
  table.classes.getD id default

def enumDef (table : Declarations) (id : EnumId) : EnumDef :=
  table.enums.getD id default

def addSymbol (table : Declarations) (symbol : Symbol) : SymbolId × Declarations :=
  (table.symbols.size, { table with symbols := table.symbols.push symbol })

def addFunction (table : Declarations) (function : FunctionDef) : FunctionId × Declarations :=
  (table.functions.size, { table with functions := table.functions.push function })

def addClass (table : Declarations) (name : String) (span : Span) (parameters : List String) :
    ClassRef × Declarations :=
  let ref : ClassRef := ⟨table.classes.size, name, parameters⟩
  (ref, { table with classes := table.classes.push ⟨ref, span, [], [], .empty, none⟩ })

def addEnum (table : Declarations) (name : String) (span : Span) : EnumRef × Declarations :=
  let ref : EnumRef := ⟨table.enums.size, name⟩
  (ref, { table with enums := table.enums.push ⟨ref, span, [], []⟩ })

def modifySymbol (table : Declarations) (id : SymbolId) (change : Symbol → Symbol) : Declarations :=
  { table with symbols := table.symbols.modify id change }

def modifyClass (table : Declarations) (id : ClassId) (change : ClassDef → ClassDef) : Declarations :=
  { table with classes := table.classes.modify id change }

def modifyEnum (table : Declarations) (id : EnumId) (change : EnumDef → EnumDef) : Declarations :=
  { table with enums := table.enums.modify id change }

def parameterTypes (table : Declarations) (function : FunctionDef) : List Ty :=
  let declared := function.parameters.map fun id => (table.symbol id).type
  if function.isVararg then
    declared.modify (declared.length - 1) fun last => last.element?.getD last
  else declared

def instantiate (table : Declarations) (id : FunctionId) (bindings : Substitution) : FunctionInstance :=
  let function := table.function id
  { function := id
    name := function.name
    parameterTypes := Ty.substituteAll bindings (table.parameterTypes function)
    thisType := function.thisSymbol.map fun this => (table.symbol this).type.substitute bindings
    isVararg := function.isVararg
    returnType := function.returnType.substitute bindings
    bindings := bindings }

end Declarations

end FplCompiler
