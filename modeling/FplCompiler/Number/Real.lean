import FplCompiler.Number.Decimal

/-! Reals by their bits. A program's reals are doubles while they are read and printed, and singles once they are
folded or stored. The rules are those of the standard arithmetic: results are rounded to the nearest number, a half to
the even neighbour, and an operation without a result gives the machine's quiet not-a-number. -/

namespace FplCompiler

structure Double where
  bits : UInt64
  deriving DecidableEq, Repr

structure Single where
  bits : UInt32
  deriving DecidableEq, Repr

namespace BinaryFormat

def negative (format : BinaryFormat) (bits : Nat) : Bool :=
  format.signBit ≤ bits

def isNaN (format : BinaryFormat) (bits : Nat) : Bool :=
  format.infinity < bits % format.signBit

def signed (format : BinaryFormat) (negative : Bool) (magnitude : Nat) : Nat :=
  if negative then format.signBit + magnitude else magnitude

def convert (source target : BinaryFormat) (bits : Nat) : Nat :=
  let magnitude := bits % source.signBit
  let converted :=
    match Binary.ofBits? source magnitude with
    | some binary =>
      let (numerator, denominator) := Binary.scale binary.significand 1 2 (-binary.exponent)
      Binary.nearestBits target numerator denominator
    | none =>
      let payload := magnitude % source.leading
      let leading :=
        if source.fractionBits ≤ target.fractionBits then
          payload * Nat.pow 2 (target.fractionBits - source.fractionBits)
        else payload / Nat.pow 2 (source.fractionBits - target.fractionBits)
      if payload = 0 then target.infinity else (target.infinity + leading) ||| (target.leading / 2)
  target.signed (source.negative bits) converted

def textWith (format : BinaryFormat) (finite : Binary → String) (bits : Nat) : String :=
  let sign := if format.negative bits then "-" else ""
  match Binary.ofBits? format (bits % format.signBit) with
  | some binary => sign ++ finite binary
  | none => if format.isNaN bits then "NaN" else sign ++ "inf"

def shortestText (format : BinaryFormat) (binary : Binary) : String :=
  if binary.significand = 0 then "0" else (Decimal.shortest format binary).text

end BinaryFormat

namespace Double

def unsignedBits? (characters : List Char) : Option Nat :=
  match String.ofList (characters.map Char.toLower) with
  | "inf" => some BinaryFormat.double.infinity
  | "infinity" => some BinaryFormat.double.infinity
  | "nan" => some (BinaryFormat.double.infinity + BinaryFormat.double.leading / 2)
  | _ => (Decimal.ofText? characters).map Decimal.nearestDouble

def ofText? (text : String) : Option Double :=
  let bits? :=
    match text.toList with
    | '-' :: rest => (unsignedBits? rest).map (BinaryFormat.double.signed true)
    | '+' :: rest => unsignedBits? rest
    | characters => unsignedBits? characters
  bits?.map fun bits => ⟨bits.toUInt64⟩

def integral? (binary : Binary) : Option Nat :=
  let (top, bottom) := Binary.scale binary.significand 1 2 (-binary.exponent)
  if top % bottom = 0 then some (top / bottom) else none

def fractionalText (binary : Binary) : String :=
  match integral? binary with
  | some value => toString value ++ ".0"
  | none => BinaryFormat.double.shortestText binary

def text (value : Double) : String :=
  BinaryFormat.double.textWith fractionalText value.bits.toNat

def toSingle (value : Double) : Single :=
  ⟨(BinaryFormat.double.convert .single value.bits.toNat).toUInt32⟩

end Double

namespace Single

def word (value : Single) : Int32 :=
  value.bits.toInt32

def toDouble (value : Single) : Double :=
  ⟨(BinaryFormat.single.convert .double value.bits.toNat).toUInt64⟩

def text (value : Single) : String :=
  BinaryFormat.single.textWith BinaryFormat.single.shortestText value.bits.toNat

def isNaN (value : Single) : Bool :=
  BinaryFormat.single.isNaN value.bits.toNat

def negative (value : Single) : Bool :=
  BinaryFormat.single.negative value.bits.toNat

def negate (value : Single) : Single :=
  ⟨value.bits ^^^ 0x80000000⟩

def same (left right : Single) : Bool :=
  left = right || (left.isNaN && right.isNaN) || (left.bits ||| right.bits = 0x80000000)

def invalid : Single :=
  ⟨0xFFC00000⟩

def infinity (negative : Bool) : Single :=
  ⟨(BinaryFormat.single.signed negative BinaryFormat.single.infinity).toUInt32⟩

def nearest (negative : Bool) (numerator denominator : Nat) : Single :=
  ⟨(BinaryFormat.single.signed negative (Binary.nearestBits .single numerator denominator)).toUInt32⟩

def magnitude? (value : Single) : Option Binary :=
  Binary.ofBits? .single (value.bits.toNat % BinaryFormat.single.signBit)

def onNumbers (operation : Single → Single → Single) (left right : Single) : Single :=
  if left.isNaN then left else if right.isNaN then right else operation left right

def units (binary : Binary) : Nat :=
  binary.significand * Nat.pow 2 (binary.exponent - BinaryFormat.single.leastExponent).toNat

def signedUnits (negative : Bool) (binary : Binary) : Int :=
  if negative then -(units binary : Int) else units binary

def add : Single → Single → Single :=
  onNumbers fun left right =>
    match left.magnitude?, right.magnitude? with
    | some first, some second =>
      let sum := signedUnits left.negative first + signedUnits right.negative second
      let negative := sum < 0 || (sum = 0 && left.negative && right.negative)
      nearest negative sum.natAbs (Nat.pow 2 (-BinaryFormat.single.leastExponent).toNat)
    | none, some _ => left
    | some _, none => right
    | none, none => if left = right then left else invalid

def subtract (left right : Single) : Single :=
  if right.isNaN then onNumbers (fun first _ => first) left right else add left right.negate

def multiply : Single → Single → Single :=
  onNumbers fun left right =>
    let negative := left.negative ^^ right.negative
    match left.magnitude?, right.magnitude? with
    | some first, some second =>
      nearest negative (units first * units second) (Nat.pow 4 (-BinaryFormat.single.leastExponent).toNat)
    | none, some other => if other.significand = 0 then invalid else infinity negative
    | some other, none => if other.significand = 0 then invalid else infinity negative
    | none, none => infinity negative

def divide : Single → Single → Single :=
  onNumbers fun left right =>
    let negative := left.negative ^^ right.negative
    match left.magnitude?, right.magnitude? with
    | some first, some second =>
      if second.significand = 0 then
        if first.significand = 0 then invalid else infinity negative
      else nearest negative (units first) (units second)
    | none, some _ => infinity negative
    | some _, none => nearest negative 0 1
    | none, none => invalid

end Single

end FplCompiler
