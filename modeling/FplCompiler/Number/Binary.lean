/-! Binary floating point numbers as exact fractions: the number nearest to a fraction, and the fraction that a
number stands for. -/

namespace FplCompiler

/-- A layout of floating point words: a sign, an exponent field and a fraction field. -/
structure BinaryFormat where
  exponentBits : Nat
  fractionBits : Nat

namespace BinaryFormat

def double : BinaryFormat :=
  ⟨11, 52⟩

def single : BinaryFormat :=
  ⟨8, 23⟩

def leastExponent (format : BinaryFormat) : Int :=
  2 - (Nat.pow 2 (format.exponentBits - 1) : Int) - format.fractionBits

def infinity (format : BinaryFormat) : Nat :=
  (Nat.pow 2 format.exponentBits - 1) * Nat.pow 2 format.fractionBits

def signBit (format : BinaryFormat) : Nat :=
  Nat.pow 2 (format.exponentBits + format.fractionBits)

def leading (format : BinaryFormat) : Nat :=
  Nat.pow 2 format.fractionBits

end BinaryFormat

/-- A finite magnitude: `significand * 2 ^ exponent`. -/
structure Binary where
  significand : Nat
  exponent : Int
  deriving DecidableEq, Repr

namespace Binary

def ofBits? (format : BinaryFormat) (bits : Nat) : Option Binary :=
  let field : Nat := bits / format.leading % Nat.pow 2 format.exponentBits
  let fraction := bits % format.leading
  if field = Nat.pow 2 format.exponentBits - 1 then none
  else if field = 0 then some ⟨fraction, format.leastExponent⟩
  else some ⟨format.leading + fraction, (field : Int) + format.leastExponent - 1⟩

def scale (numerator denominator base : Nat) (exponent : Int) : Nat × Nat :=
  match exponent with
  | .ofNat power => (numerator, denominator * Nat.pow base power)
  | .negSucc power => (numerator * Nat.pow base (power + 1), denominator)

def roundHalfEven (numerator denominator : Nat) : Nat :=
  let quotient := numerator / denominator
  let twice := 2 * (numerator % denominator)
  if twice < denominator then quotient
  else if denominator < twice then quotient + 1
  else quotient + quotient % 2

def exponentFor (format : BinaryFormat) (numerator denominator : Nat) : Int :=
  let guess : Int := max format.leastExponent
    ((Nat.log2 numerator : Int) - Nat.log2 denominator - format.fractionBits - 1)
  let (top, bottom) := scale numerator denominator 2 guess
  if top / bottom < 2 * format.leading then guess else guess + 1

def nearestBits (format : BinaryFormat) (numerator denominator : Nat) : Nat :=
  if numerator = 0 then 0
  else
    let exponent := exponentFor format numerator denominator
    let (top, bottom) := scale numerator denominator 2 exponent
    let significand := roundHalfEven top bottom
    if significand < format.leading then significand
    else
      min format.infinity
        ((exponent - format.leastExponent).toNat * format.leading + significand)

end Binary

end FplCompiler
