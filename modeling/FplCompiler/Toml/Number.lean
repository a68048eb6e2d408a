import FplCompiler.Toml.Text
import FplCompiler.Toml.Value

/-! Numbers, dates and times of TOML documents. -/

namespace FplCompiler.Toml

open Reader

def digitGroup (isDigit : Char → Bool) : Reader (List Char) := do
  let first ← satisfy isDigit
  let rest ← many (satisfy isDigit <|> (char '_' *> satisfy isDigit))
  return first :: rest

def decimalDigits : Reader (List Char) :=
  digitGroup Char.isDigit

def sign : Reader (List Char) := do
  return (← optional (satisfy fun character => character = '+' || character = '-')).toList

def decimalInteger : Reader (List Char) := do
  if (← peek?) = some '0' then return [← satisfy Char.isDigit] else decimalDigits

def exponent : Reader (List Char) := do
  let mark ← satisfy fun character => character = 'e' || character = 'E'
  return mark :: (← sign) ++ (← decimalDigits)

def fraction : Reader (List Char) := do
  char '.'
  return '.' :: (← decimalDigits)

def finiteFloat : Reader Value := do
  let mark ← sign
  let whole ← decimalInteger
  let rest ← exponent <|> do
    let fraction ← fraction
    return fraction ++ (← optional exponent).getD []
  match Double.ofText? (String.ofList (mark ++ whole ++ rest)) with
  | some value => if value.text = "inf" then failure else return .float value
  | none => failure

def specialFloat : Reader Value := do
  let mark ← sign
  let name ← (text "inf" *> pure "inf") <|> (text "nan" *> pure "nan")
  match Double.ofText? (String.ofList mark ++ name) with
  | some value => return .float value
  | none => failure

def digitsIn (base : Nat) (digits : List Char) : Nat :=
  digits.foldl (fun value digit => base * value + (hexValue? digit).getD 0) 0

def checkedInteger (value : Int) : Reader Value :=
  if -9223372036854775808 ≤ value && value ≤ 9223372036854775807 then return .integer value else failure

def basedInteger (mark : String) (base : Nat) : Reader Value := do
  text mark
  let digits ← digitGroup fun character => (hexValue? character).any (· < base)
  checkedInteger (digitsIn base digits)

def integer : Reader Value :=
  basedInteger "0x" 16 <|> basedInteger "0o" 8 <|> basedInteger "0b" 2 <|> do
    let mark ← sign
    let value := digitsIn 10 (← decimalInteger)
    checkedInteger (if mark = ['-'] then -(value : Int) else value)

def field (width low high : Nat) : Reader Nat := do
  let value := digitsIn 10 (← (List.replicate width ()).mapM fun _ => satisfy Char.isDigit)
  if low ≤ value && value ≤ high then return value else failure

def daysInMonth (year month : Nat) : Nat :=
  if month = 2 then
    if year % 4 = 0 && (year % 100 ≠ 0 || year % 400 = 0) then 29 else 28
  else if [4, 6, 9, 11].contains month then 30
  else 31

def date : Reader Unit := do
  let year ← field 4 0 9999
  char '-'
  let month ← field 2 1 12
  char '-'
  let _ ← field 2 1 (daysInMonth year month)

def time : Reader Unit := do
  let _ ← field 2 0 23
  char ':'
  let _ ← field 2 0 59
  char ':'
  let _ ← field 2 0 60
  let _ ← optional do
    char '.'
    let _ ← satisfy Char.isDigit
    takeWhile Char.isDigit

def timeOffset : Reader Unit :=
  char 'Z' <|> char 'z' <|> do
    let _ ← satisfy fun character => character = '+' || character = '-'
    let _ ← field 2 0 23
    char ':'
    let _ ← field 2 0 59

def datetime : Reader Value := do
  (do
    date
    let _ ← optional do
      let _ ← satisfy fun character => ['T', 't', ' '].contains character
      time
      optional timeOffset) <|> time
  return .datetime

def number : Reader Value :=
  datetime <|> finiteFloat <|> specialFloat <|> integer

end FplCompiler.Toml
