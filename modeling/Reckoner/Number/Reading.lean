import Reckoner.Number.Binary
import Reckoner.Text.Blank
import Reckoner.Text.Digit

/-!
# Reading numbers

A *literal* is a run of decimal digits of any script, which may have a point before its last
digit. The wider form of *written numbers* also allows a sign, an exponent, a missing run on one
side of the point, underscores between digits, surrounding blanks, and names for infinity and for
what is not a number. Both give the double nearest to what is written.
-/

namespace Reckoner.Number

open Reckoner.Text (decimalValue? isBlank trimBy)

/-- The number that a run of digit values spells. -/
def ofDigits (digits : List Nat) : Nat :=
  digits.foldl (fun value digit => 10 * value + digit) 0

/-- The values of a run of one or more decimal digits. -/
def digitRun? (cs : List Char) : Option (List Nat) :=
  if cs.isEmpty then none else cs.mapM decimalValue?

/-- The value of a literal. After a point there is at least one digit. -/
def literal? (cs : List Char) : Option Float :=
  match cs.span (· != '.') with
  | (whole, []) => do
    let digits ← digitRun? whole
    return nearest (ofDigits digits) 1
  | (whole, _ :: fraction) => do
    let wholeDigits ← whole.mapM decimalValue?
    let fractionDigits ← digitRun? fraction
    return nearest (ofDigits (wholeDigits ++ fractionDigits)) (Nat.pow 10 fractionDigits.length)

/-- The double nearest to an integer, unless it lies beyond the largest double. -/
def ofInt? (n : Int) : Option Float :=
  let magnitude := nearest n.natAbs 1
  if magnitude == infinity then none
  else some (if n < 0 then -magnitude else magnitude)

/-! ## Written numbers -/

/-- Drops underscores that stand between two digits and refuses any other. The first argument
says whether a digit stands before. -/
def dropUnderscores : Bool → List Char → Option (List Char)
  | _, [] => some []
  | digitBefore, '_' :: rest =>
    match rest with
    | c :: _ =>
      if digitBefore && (decimalValue? c).isSome then dropUnderscores false rest else none
    | [] => none
  | _, c :: rest => (dropUnderscores (decimalValue? c).isSome rest).map (c :: ·)

/-- A sign at the start, if there is one, and the rest. -/
def splitSign : List Char → Bool × List Char
  | '-' :: rest => (true, rest)
  | '+' :: rest => (false, rest)
  | rest => (false, rest)

/-- The digit values at the start and the rest. -/
def splitDigits : List Char → List Nat × List Char
  | [] => ([], [])
  | c :: rest =>
    match decimalValue? c with
    | some digit =>
      let (digits, tail) := splitDigits rest
      (digit :: digits, tail)
    | none => ([], c :: rest)

/-- A point and the digits after it, if there is a point. -/
def splitFraction : List Char → List Nat × List Char
  | '.' :: rest => splitDigits rest
  | rest => ([], rest)

/-- The exponent that makes up the whole rest; an empty rest is the exponent zero. -/
def exponent? : List Char → Option Int
  | [] => some 0
  | mark :: rest =>
    if mark == 'e' || mark == 'E' then
      let (negative, tail) := splitSign rest
      (digitRun? tail).map fun digits =>
        if negative then -(ofDigits digits : Int) else (ofDigits digits : Int)
    else
      none

/-- The double nearest to `digits * 10 ^ exponent`. A number whose first digit other than zero
lies far outside the range of doubles is decided without computing the power. -/
def ofDecimal (digits : List Nat) (exponent : Int) : Float :=
  match digits.dropWhile (· == 0) with
  | [] => 0
  | significant =>
    let magnitude := exponent + significant.length
    if 400 < magnitude then infinity
    else if magnitude < -400 then 0
    else nearest (ofDigits significant * Nat.pow 10 exponent.toNat) (Nat.pow 10 (-exponent).toNat)

/-- The value of an unsigned number written in digits. -/
def unsigned? (cs : List Char) : Option Float :=
  let (whole, afterWhole) := splitDigits cs
  let (fraction, afterFraction) := splitFraction afterWhole
  if whole.isEmpty && fraction.isEmpty then none
  else (exponent? afterFraction).map fun exponent =>
    ofDecimal (whole ++ fraction) (exponent - fraction.length)

/-- The value of an unsigned number given by name. -/
def named? (cs : List Char) : Option Float :=
  let name := String.ofList (cs.map Char.toLower)
  if name == "inf" || name == "infinity" then some infinity
  else if name == "nan" then some notANumber
  else none

/-- Whether a character may surround a written number: the blanks but for the four information
separators. -/
def isMargin (c : Char) : Bool :=
  isBlank c && !(0x1c ≤ c.toNat && c.toNat ≤ 0x1f)

/-- The value of a written number. -/
def written? (text : String) : Option Float := do
  let cs ← dropUnderscores false (trimBy isMargin text.toList)
  let (negative, rest) := splitSign cs
  let value ← (named? rest).or (unsigned? rest)
  return if negative then -value else value

end Reckoner.Number
