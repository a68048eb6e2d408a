import FplCompiler.Declaration.Table
import FplCompiler.Source.File
import FplCompiler.Text.Json
import FplCompiler.Text.Table

/-! The symbols that sources declare, as a table and as JSON. -/

namespace FplCompiler

structure SymbolEntry where
  name : String
  kind : String
  type : String
  fileName : String
  line : Nat
  column : Nat
  isMutable : Bool
  deriving DecidableEq, Repr

namespace SymbolEntry

def kindName (symbol : Symbol) : String :=
  match symbol.kind, symbol.type with
  | .typeName, .object _ _ => "class"
  | .typeName, .enumeration _ => "enum"
  | _, _ => symbol.kindName

def ofSymbol (sources : SourceMap) (symbol : Symbol) : SymbolEntry :=
  let (line, column) := sources.lineColumn symbol.span.file symbol.span.start
  { name := symbol.name
    kind := kindName symbol
    type := symbol.type.text
    fileName := (sources.get symbol.span.file).name
    line := line
    column := column
    isMutable := symbol.isMutable }

/-- The symbols in the order of declaration. What every program has is declared nowhere and left out. -/
def ofTable (sources : SourceMap) (table : Declarations) : List SymbolEntry :=
  (table.symbols.toList.filter fun symbol => !symbol.span.isEmpty).map (ofSymbol sources)

def row (entry : SymbolEntry) : List String :=
  [entry.name, entry.kind, entry.type, toString entry.isMutable,
    s!"{entry.fileName}:{entry.line}.{entry.column}"]

def renderTable (entries : List SymbolEntry) : String :=
  Table.render ["Name", "Kind", "Type", "Mutable", "Defined At"] (entries.map row)

def toJson (entry : SymbolEntry) : JsonValue :=
  let definition : JsonValue := .object
    [.mk "filename" (.string entry.fileName), .mk "line" (.number entry.line), .mk "column" (.number entry.column)]
  .object [.mk "name" (.string entry.name), .mk "kind" (.string entry.kind), .mk "type" (.string entry.type),
    .mk "definition" definition, .mk "mutable" (.bool entry.isMutable)]

def renderJson (entries : List SymbolEntry) : String :=
  (JsonValue.object [.mk "symbols" (.list (entries.map toJson))]).text

end SymbolEntry

end FplCompiler
