import FplCompiler.Number.Binary

/-! Decimal numerals: reading them, and finding the shortest one that reads back as a given binary number. -/

namespace FplCompiler

/-- A decimal numeral: `digits * 10 ^ exponent`. -/
structure Decimal where
  digits : Nat
  exponent : Int
  deriving DecidableEq, Repr

namespace Decimal

def digitsValue (characters : List Char) : Nat :=
  characters.foldl (fun value character => 10 * value + (character.toNat - '0'.toNat)) 0

def exponentPart? : List Char → Option Int
  | [] => some 0
  | mark :: rest =>
    if mark = 'e' || mark = 'E' then
      let (negative, digits) :=
        match rest with
        | '-' :: digits => (true, digits)
        | '+' :: digits => (false, digits)
        | digits => (false, digits)
      if digits.isEmpty || !digits.all Char.isDigit then none
      else
        let value : Int := digitsValue digits
        some (if negative then -value else value)
    else none

def ofText? (characters : List Char) : Option Decimal :=
  let whole := characters.takeWhile Char.isDigit
  let (fraction, rest) :=
    match characters.dropWhile Char.isDigit with
    | '.' :: rest => (rest.takeWhile Char.isDigit, rest.dropWhile Char.isDigit)
    | rest => ([], rest)
  if whole.isEmpty && fraction.isEmpty then none
  else
    (exponentPart? rest).map fun exponent =>
      ⟨digitsValue (whole ++ fraction), exponent - fraction.length⟩

def width (value : Nat) : Nat :=
  (Nat.toDigits 10 value).length

def nearestDouble (decimal : Decimal) : Nat :=
  let size : Int := decimal.exponent + width decimal.digits
  if decimal.digits = 0 || size < -400 then 0
  else if size > 400 then BinaryFormat.double.infinity
  else
    let (top, bottom) := Binary.scale decimal.digits 1 10 (-decimal.exponent)
    Binary.nearestBits .double top bottom

/-- The fractions between which a decimal reads back as a binary number: the number itself and the middles to its
neighbours, over one denominator. The ends count when the significand is even. -/
structure Rounding where
  low : Nat
  exact : Nat
  high : Nat
  denominator : Nat
  closed : Bool

def Rounding.ofBinary (format : BinaryFormat) (binary : Binary) : Rounding :=
  let below :=
    if binary.significand = format.leading && binary.exponent ≠ format.leastExponent then 1 else 2
  let scaled (quarters : Nat) := (Binary.scale quarters 4 2 (-binary.exponent)).1
  { low := scaled (4 * binary.significand - below)
    exact := scaled (4 * binary.significand)
    high := scaled (4 * binary.significand + 2)
    denominator := (Binary.scale 1 4 2 (-binary.exponent)).2
    closed := binary.significand % 2 = 0 }

def Rounding.holds (rounding : Rounding) (decimal : Decimal) : Bool :=
  let (top, bottom) := Binary.scale decimal.digits 1 10 (-decimal.exponent)
  let value := top * rounding.denominator
  if rounding.closed then rounding.low * bottom ≤ value && value ≤ rounding.high * bottom
  else rounding.low * bottom < value && value < rounding.high * bottom

def shortestFrom (rounding : Rounding) : Nat → Int → Decimal
  | 0, exponent => ⟨0, exponent⟩
  | tries + 1, exponent =>
    let (top, bottom) := Binary.scale rounding.exact rounding.denominator 10 exponent
    let lower : Decimal := ⟨top / bottom, exponent⟩
    let upper : Decimal := ⟨top / bottom + 1, exponent⟩
    let upperNearer := bottom ≤ 2 * (top % bottom)
    if rounding.holds upper && (upperNearer || !rounding.holds lower) then upper
    else if rounding.holds lower then lower
    else shortestFrom rounding tries (exponent - 1)

def shortest (format : BinaryFormat) (binary : Binary) : Decimal :=
  let rounding := Rounding.ofBinary format binary
  let start := width (rounding.exact / rounding.denominator)
  shortestFrom rounding (start + Nat.pow 2 format.exponentBits) start

def withPoint (value places : Nat) : String :=
  let digits := Nat.toDigits 10 value
  let padded := List.replicate (places + 1 - digits.length) '0' ++ digits
  let whole := padded.take (padded.length - places)
  let fraction := padded.drop (padded.length - places)
  String.ofList whole ++ "." ++ String.ofList fraction

def text (decimal : Decimal) : String :=
  match decimal.exponent with
  | .ofNat zeros => toString (decimal.digits * Nat.pow 10 zeros)
  | .negSucc places => withPoint decimal.digits (places + 1)

end Decimal

end FplCompiler
