/-!
# Doubles as binary fractions

A double is not a number, an infinity, or a sign with a whole significand times a power of two.
This module takes the bit pattern of a double apart, and rounds a quotient of naturals to the
pattern of the nearest double. Both work in natural-number arithmetic on the pattern.
-/

namespace Reckoner.Number

/-- What a double stands for. -/
inductive Binary
  /-- Not a number. -/
  | nan
  /-- An infinity with its sign. -/
  | infinite (negative : Bool)
  /-- The value `significand * 2 ^ exponent` with a sign; zero has a sign too. -/
  | finite (negative : Bool) (significand : Nat) (exponent : Int)
  deriving DecidableEq, Repr

/-- Positive infinity. -/
def infinity : Float :=
  Float.ofBits 0x7ff0000000000000

/-- The result of an undefined operation. -/
def notANumber : Float :=
  Float.ofBits 0x7ff8000000000000

/-- Whether the sign bit of a double is set. -/
def isNegative (x : Float) : Bool :=
  decide (Nat.pow 2 63 ≤ x.toBits.toNat)

namespace Binary

/-- The exponent of the least significant bit of the smallest doubles. -/
def leastExponent : Int := -1074

/-- Number of bits of the fraction field. -/
def fractionBits : Nat := 52

/-- The exponent field of infinities and of what is not a number. -/
def specialField : Nat := 2047

/-- Reads a bit pattern. A zero exponent field means that the significand has no implicit top
bit. -/
def ofPattern (pattern : Nat) : Binary :=
  let negative := decide (Nat.pow 2 63 ≤ pattern)
  let field := pattern / Nat.pow 2 fractionBits % Nat.pow 2 11
  let fraction := pattern % Nat.pow 2 fractionBits
  if field = specialField then
    if fraction = 0 then .infinite negative else .nan
  else if field = 0 then
    .finite negative fraction leastExponent
  else
    .finite negative (fraction + Nat.pow 2 fractionBits) (leastExponent + (field - 1 : Nat))

/-- What a double stands for. -/
def ofFloat (x : Float) : Binary :=
  ofPattern x.toBits.toNat

/-- The integer that a double stands for, if it stands for one. Both zeros stand for `0`. -/
def whole? : Binary → Option Int
  | .finite negative significand exponent =>
    let divisor := Nat.pow 2 (-exponent).toNat
    if significand % divisor = 0 then
      let magnitude : Int := (significand / divisor * Nat.pow 2 exponent.toNat : Nat)
      some (if negative then -magnitude else magnitude)
    else
      none
  | _ => none

end Binary

/-! ## Rounding a quotient to a double -/

/-- The quotient rounded to a natural number; a half goes to the even neighbour. -/
def roundHalfEven (numerator denominator : Nat) : Nat :=
  let quotient := numerator / denominator
  let remainder := numerator % denominator
  if 2 * remainder < denominator then quotient
  else if denominator < 2 * remainder then quotient + 1
  else quotient + quotient % 2

/-- The quotient divided by `base ^ exponent`, as a numerator and a denominator. -/
def scaleBy (base : Nat) (exponent : Int) (numerator denominator : Nat) : Nat × Nat :=
  (numerator * Nat.pow base (-exponent).toNat, denominator * Nat.pow base exponent.toNat)

/-- The exponent of the last bit that a double near a positive quotient can hold: the significand
has then 53 bits, or fewer at the lower end of the range. -/
def unitExponent (numerator denominator : Nat) : Int :=
  let guess : Int := (numerator.log2 : Int) - (denominator.log2 : Int) - 53
  let scaled := scaleBy 2 guess numerator denominator
  max Binary.leastExponent (if Nat.pow 2 53 ≤ scaled.1 / scaled.2 then guess + 1 else guess)

/-- The bit pattern of the double nearest to a quotient; a half goes to the even significand, and
what lies beyond the largest double becomes infinity. A significand that rounds up to 54 bits
carries into the exponent field. -/
def nearestPattern (numerator denominator : Nat) : Nat :=
  if numerator = 0 then 0
  else
    let exponent := unitExponent numerator denominator
    let scaled := scaleBy 2 exponent numerator denominator
    let significand := roundHalfEven scaled.1 scaled.2
    min ((exponent - Binary.leastExponent).toNat * Nat.pow 2 Binary.fractionBits + significand)
      (Binary.specialField * Nat.pow 2 Binary.fractionBits)

/-- The double nearest to a quotient of naturals. -/
def nearest (numerator denominator : Nat) : Float :=
  Float.ofBits (UInt64.ofNat (nearestPattern numerator denominator))

end Reckoner.Number
