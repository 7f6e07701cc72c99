import Reckoner.Number.Shortest

/-!
# Text of numbers

Two texts of a double are in use. The *full* text always shows that the value is a double: it
keeps a point or an exponent. The *plain* text, which `print` shows, writes whole numbers of at
most sixteen digits without a point. Both use the fewest digits that read back.
-/

namespace Reckoner.Number

/-- How a decimal is laid out. The point's place is counted from the left of the first digit. -/
structure Layout where
  /-- Least place of the point for which no exponent is written. -/
  leastPoint : Int
  /-- Greatest place of the point for which no exponent is written. -/
  greatestPoint : Int
  /-- Least number of digits of a written exponent. -/
  exponentDigits : Nat

/-- No exponent is written from one ten-thousandth up to, but without, ten to the sixteenth; an
exponent has two digits at least. -/
def Layout.standard : Layout where
  leastPoint := -3
  greatestPoint := 16
  exponentDigits := 2

/-- A run of zeros. -/
def zeros (count : Nat) : List Char :=
  List.replicate count '0'

/-- The decimal digits of a natural number. -/
def digitsOf (n : Nat) : List Char :=
  Nat.toDigits 10 n

/-- Digits without the zeros at their end. -/
def dropEndZeros (digits : List Char) : List Char :=
  (digits.reverse.dropWhile (· == '0')).reverse

namespace Layout

/-- A written exponent: its sign is always there. -/
def exponentText (layout : Layout) (exponent : Int) : List Char :=
  let digits := digitsOf exponent.natAbs
  let sign := if exponent < 0 then '-' else '+'
  'e' :: sign :: zeros (layout.exponentDigits - digits.length) ++ digits

/-- The digits with a point at the given place and a digit on both sides of it. -/
def positional (digits : List Char) (point : Int) : List Char :=
  if point ≤ 0 then
    '0' :: '.' :: zeros (-point).toNat ++ digits
  else if (digits.length : Int) ≤ point then
    digits ++ zeros (point - digits.length).toNat ++ ['.', '0']
  else
    digits.take point.toNat ++ '.' :: digits.drop point.toNat

/-- One digit, the others after a point, and the exponent. -/
def scientific (layout : Layout) (digits : List Char) (point : Int) : List Char :=
  let mantissa :=
    match digits with
    | [] => []
    | [digit] => [digit]
    | digit :: others => digit :: '.' :: others
  mantissa ++ layout.exponentText (point - 1)

/-- The text of a positive decimal. -/
def write (layout : Layout) (d : Decimal) : List Char :=
  let all := digitsOf d.digits
  let point : Int := (all.length : Int) + d.exponent
  let digits := dropEndZeros all
  if layout.leastPoint ≤ point ∧ point ≤ layout.greatestPoint then positional digits point
  else layout.scientific digits point

end Layout

/-- A text with a minus sign in front of it if asked for. -/
def signed (negative : Bool) (text : List Char) : List Char :=
  if negative then '-' :: text else text

/-- The full text of what a double stands for. -/
def Binary.fullText : Binary → List Char
  | .nan => "nan".toList
  | .infinite negative => signed negative "inf".toList
  | .finite negative significand exponent =>
    signed negative <|
      if significand = 0 then "0.0".toList
      else Layout.standard.write (Decimal.shortest significand exponent)

/-- The full text of a double: the fewest digits that read back, always with a point or an
exponent. -/
def fullText (x : Float) : String :=
  String.ofList (Binary.ofFloat x).fullText

/-- Whole numbers from this magnitude on are shown by their full text. -/
def plainLimit : Nat := Nat.pow 10 16

/-- The plain text of what a double stands for. -/
def Binary.plainText (b : Binary) : List Char :=
  match b.whole? with
  | some n =>
    if n.natAbs < plainLimit then signed (decide (n < 0)) (digitsOf n.natAbs) else b.fullText
  | none => b.fullText

/-- The text of a value as it is printed: whole numbers below the limit have no point. -/
def plainText (x : Float) : String :=
  String.ofList (Binary.ofFloat x).plainText

end Reckoner.Number
