/-! Readers of characters. A reader takes what it can from the front of the characters, or fails. -/

namespace FplCompiler.Toml

abbrev Reader := StateT (List Char) Option

namespace Reader

def peek? : Reader (Option Char) := do
  return (← get).head?

def satisfy (test : Char → Bool) : Reader Char := do
  match ← get with
  | character :: rest =>
    if test character then
      set rest
      return character
    else failure
  | [] => failure

def char (expected : Char) : Reader Unit := do
  let _ ← satisfy (· == expected)

def text (expected : String) : Reader Unit :=
  expected.toList.forM char

def ahead {α : Type} (reader : Reader α) : Reader Unit := do
  let before ← get
  let _ ← reader
  set before

def manyWithin {α : Type} (reader : Reader α) : Nat → Reader (List α)
  | 0 => return []
  | bound + 1 => do
    match ← optional reader with
    | none => return []
    | some first => return first :: (← manyWithin reader bound)

/-- The results of a reader as long as it succeeds. It takes a character each time, so that their number is a bound. -/
def many {α : Type} (reader : Reader α) : Reader (List α) := do
  manyWithin reader (← get).length

def takeWhile (test : Char → Bool) : Reader (List Char) :=
  fun characters => some (characters.takeWhile test, characters.dropWhile test)

def separated {α : Type} (reader : Reader α) (separator : Char) : Reader (List α) := do
  let first ← reader
  let rest ← many do
    char separator
    reader
  return first :: rest

def skipBlanks : Reader Unit := do
  let _ ← takeWhile fun character => character = ' ' || character = '\t'

def newline : Reader Unit :=
  char '\n' <|> text "\r\n"

def lineEnd : Reader Unit := do
  if (← get).isEmpty then return () else newline

def isPlain (character : Char) : Bool :=
  character = '\t' || (' ' ≤ character && character ≠ '\x7f')

def skipComment : Reader Unit := do
  char '#'
  let _ ← takeWhile isPlain

def restOfLine : Reader Unit := do
  skipBlanks
  let _ ← optional skipComment
  lineEnd

def gap : Reader Unit := do
  let _ ← many do
    newline <|> (skipComment *> newline) <|> do
      let _ ← satisfy fun character => character = ' ' || character = '\t'

end Reader

end FplCompiler.Toml
