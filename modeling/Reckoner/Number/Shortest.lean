import Reckoner.Number.Binary

/-!
# Shortest decimals

Every finite double has a decimal with the fewest digits that rounds back to it; among those the
one nearest to the double is chosen. The search tries one digit, two digits and so on, each time
the two neighbours of the value on that decimal grid, and keeps the first that reads back.
-/

namespace Reckoner.Number

/-- The value `digits * 10 ^ exponent`. -/
structure Decimal where
  digits : Nat
  exponent : Int
  deriving DecidableEq, Repr

namespace Decimal

/-- The bit pattern of the double nearest to a decimal. -/
def pattern (d : Decimal) : Nat :=
  nearestPattern (d.digits * Nat.pow 10 d.exponent.toNat) (Nat.pow 10 (-d.exponent).toNat)

/-- All digits of `significand * 2 ^ exponent`. -/
def exact (significand : Nat) (exponent : Int) : Decimal :=
  if 0 ≤ exponent then ⟨significand * Nat.pow 2 exponent.toNat, 0⟩
  else ⟨significand * Nat.pow 5 (-exponent).toNat, exponent⟩

/-- Number of decimal digits of a natural number. -/
def digitCount (n : Nat) : Nat :=
  (Nat.toDigits 10 n).length

/-- The exponent of the leading digit of a positive quotient. -/
def leadingExponent (numerator denominator : Nat) : Int :=
  let guess : Int := (digitCount numerator : Int) - (digitCount denominator : Int)
  let scaled := scaleBy 10 guess numerator denominator
  if scaled.2 ≤ scaled.1 then guess else guess - 1

/-- The two decimals with the given last place around a quotient, the nearer one first; at the
same distance the one with an even last digit comes first. -/
def neighbours (lastPlace : Int) (numerator denominator : Nat) : List Decimal :=
  let scaled := scaleBy 10 lastPlace numerator denominator
  let lower := scaled.1 / scaled.2
  let remainder := scaled.1 % scaled.2
  let below : Decimal := ⟨lower, lastPlace⟩
  let above : Decimal := ⟨lower + 1, lastPlace⟩
  if 2 * remainder < scaled.2 then [below, above]
  else if scaled.2 < 2 * remainder then [above, below]
  else if lower % 2 = 0 then [below, above]
  else [above, below]

/-- The decimal of the fewest digits that reads back as `significand * 2 ^ exponent`. Seventeen
digits always suffice for a double. -/
def shortest (significand : Nat) (exponent : Int) : Decimal :=
  let numerator := significand * Nat.pow 2 exponent.toNat
  let denominator := Nat.pow 2 (-exponent).toNat
  let target := nearestPattern numerator denominator
  let leading := leadingExponent numerator denominator
  let found := (List.range 17).findSome? fun (places : Nat) =>
    (neighbours (leading - (places : Int)) numerator denominator).find?
      fun candidate => candidate.pattern = target
  found.getD (exact significand exponent)

end Decimal

end Reckoner.Number
