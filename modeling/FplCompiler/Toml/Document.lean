import FplCompiler.Toml.Number

/-! TOML documents. -/

namespace FplCompiler.Toml

open Reader

def maxDepth : Nat := 79

def isKeyChar (character : Char) : Bool :=
  character.isAlphanum || character = '_' || character = '-'

def simpleKey : Reader String :=
  basicString <|> literalString <|> do
    let first ← satisfy isKeyChar
    return String.ofList (first :: (← takeWhile isKeyChar))

def key : Reader (List String × String) := do
  let names ← separated (skipBlanks *> simpleKey <* skipBlanks) '.'
  if maxDepth < names.length then failure
  return (names.dropLast, names.getLast?.getD "")

def array (element : Reader Value) : Reader Value := do
  char '['
  gap
  let elements ← optional do
    let elements ← separated (gap *> element <* gap) ','
    let _ ← optional (char ',')
    return elements
  gap
  char ']'
  return .array (elements.getD [])

def inlineTable (element : Reader Value) : Reader Value := do
  char '\x7b'
  let pairs ← optional (separated (do
    let (path, name) ← key
    char '='
    skipBlanks
    let value ← element
    skipBlanks
    return (path, name, value)) ',')
  skipBlanks
  char '\x7d'
  let entries ← (pairs.getD []).foldlM (fun entries (path, name, value) =>
    Entries.insert path name value .inline entries) []
  return .table .inline entries

def scalar : Reader Value :=
  Value.string <$> anyString <|> number <|> (text "true" *> pure (.boolean true)) <|>
    (text "false" *> pure (.boolean false))

def value : Nat → Reader Value
  | 0 => scalar
  | depth + 1 => scalar <|> array (value depth) <|> inlineTable (value depth)

structure State where
  root : Entries := []
  header : List String := []

def keyLine (state : State) : Reader State := do
  let (path, name) ← key
  char '='
  skipBlanks
  let value ← value maxDepth
  restOfLine
  let step (kind : TableKind) (entries : Entries) : Option Entries := Entries.insert path name value kind entries
  let root ← Entries.change false step state.header .defined state.root
  return { state with root := root }

def headerLine (state : State) : Reader State := do
  let (open_, path, name) ← (do
    text "[["
    let (path, name) ← key
    text "]]"
    return (Entries.openElement, path, name)) <|> do
    char '['
    let (path, name) ← key
    char ']'
    return (Entries.openTable, path, name)
  restOfLine
  return { root := ← open_ path name state.root, header := path ++ [name] }

def line (state : State) : Reader State := do
  match ← peek? with
  | some '#' =>
    skipComment
    lineEnd
    return state
  | some '[' => headerLine state
  | some '\n' | some '\r' =>
    newline
    return state
  | _ => keyLine state

def lines : Nat → State → Reader State
  | 0, _ => failure
  | bound + 1, state => do
    skipBlanks
    if (← get).isEmpty then return state else lines bound (← line state)

def parse? (document : String) : Option Entries :=
  let characters := match document.toList with
    | '\ufeff' :: rest => rest
    | all => all
  ((lines (characters.length + 1) {}).run characters).map (·.1.root)

end FplCompiler.Toml
