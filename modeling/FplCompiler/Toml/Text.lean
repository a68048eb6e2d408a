import FplCompiler.Toml.Reader

/-! Strings of TOML documents: between quotes or apostrophes, on one line or on several. -/

namespace FplCompiler.Toml

open Reader

def hexValue? (character : Char) : Option Nat :=
  if character.isDigit then some (character.toNat - '0'.toNat)
  else if 'a' ≤ character && character ≤ 'f' then some (character.toNat - 'a'.toNat + 10)
  else if 'A' ≤ character && character ≤ 'F' then some (character.toNat - 'A'.toNat + 10)
  else none

def codeChar (digits : Nat) : Reader Char := do
  let values ← (List.replicate digits ()).mapM fun _ => do
    let character ← satisfy fun character => (hexValue? character).isSome
    return (hexValue? character).getD 0
  let code := values.foldl (fun code value => 16 * code + value) 0
  if code.isValidChar then return Char.ofNat code else failure

def escaped : Reader Char := do
  char '\\'
  match ← satisfy fun _ => true with
  | 'b' => return '\x08'
  | 't' => return '\t'
  | 'n' => return '\n'
  | 'f' => return '\x0c'
  | 'r' => return '\r'
  | '"' => return '"'
  | '\\' => return '\\'
  | 'u' => codeChar 4
  | 'U' => codeChar 8
  | _ => failure

def plainExcept (excluded : List Char) : Reader Char :=
  satisfy fun character => isPlain character && !excluded.contains character

def basicString : Reader String := do
  char '"'
  let characters ← many (plainExcept ['"', '\\'] <|> escaped)
  char '"'
  return String.ofList characters

def literalString : Reader String := do
  char '\''
  let characters ← many (plainExcept ['\''])
  char '\''
  return String.ofList characters

def joinedLines : Reader Unit := do
  char '\\'
  skipBlanks
  newline
  let _ ← many do
    newline <|> do
      let _ ← satisfy fun character => character = ' ' || character = '\t'

def fewQuotes (quote : Char) (next : Reader Unit) : Reader (List Char) :=
  (do
    char quote
    char quote
    ahead next
    return [quote, quote]) <|> do
    char quote
    ahead next
    return [quote]

/-- A string between triple quotes, with a reader of its parts. A line end at its start does not count, and up to two
quotes may stand in front of the last three. -/
def tripleString (quote : Char) (part : Reader (List Char)) : Reader String := do
  let delimiter : Reader Unit := do
    char quote
    char quote
    char quote
  let other : Reader Unit := do
    let _ ← satisfy (· != quote)
  delimiter
  let _ ← optional newline
  let parts ← many (part <|> (newline *> pure ['\n']) <|> fewQuotes quote other)
  let last ← optional (fewQuotes quote delimiter)
  delimiter
  return String.ofList (parts.flatten ++ last.getD [])

def anyString : Reader String :=
  tripleString '"' (List.singleton <$> plainExcept ['"', '\\'] <|> (joinedLines *> pure []) <|>
    List.singleton <$> escaped) <|>
  basicString <|>
  tripleString '\'' (List.singleton <$> plainExcept ['\'']) <|>
  literalString

end FplCompiler.Toml
