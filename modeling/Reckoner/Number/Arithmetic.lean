import Reckoner.Number.Binary

/-!
# Arithmetic

Division and powers are total over doubles: where no real result exists they give an infinity or
a value that is not a number. Factorials are defined for whole numbers from zero on.
-/

namespace Reckoner.Number

/-- The quotient of two doubles. A number divided by zero is infinite with the sign of the exact
limit; zero and what is not a number divided by zero is not a number. -/
def divide (left right : Float) : Float :=
  if right == 0 then
    if left == 0 || left.isNaN then notANumber
    else if isNegative left != isNegative right then -infinity
    else infinity
  else
    left / right

/-! ## Powers -/

/-- How an attempt to raise a number to a power ends. -/
inductive Attempt
  /-- A power was found. -/
  | value (power : Float)
  /-- Both operands are finite and the power is too large for a double. -/
  | overflow
  /-- Both operands are finite and there is no real power. -/
  | undefined

/-- Raises a number to a power by the given function and tells apart why no finite power of finite
operands exists. -/
def attemptBy (pow : Float → Float → Float) (base exponent : Float) : Attempt :=
  let power := pow base exponent
  if base.isFinite && exponent.isFinite then
    if power.isNaN then .undefined
    else if power.isInf then (if base == 0 then .undefined else .overflow)
    else .value power
  else
    .value power

/-- Whether a double is an odd whole number. -/
def isOdd (x : Float) : Bool :=
  match (Binary.ofFloat x).whole? with
  | some n => n % 2 != 0
  | none => false

/-- The power of two doubles by the given attempt to find it. A power out of range is infinite,
negative for an odd power of a negative number. Zero to a negative power is positive infinity, and a
fractional power of a negative number is not a number. -/
def powerBy (attempt : Float → Float → Attempt) (base exponent : Float) : Float :=
  match attempt base exponent with
  | .value power => power
  | .overflow => if base < 0 && isOdd exponent then -infinity else infinity
  | .undefined => if base == 0 then infinity else notANumber

/-- The power of two doubles. -/
def power : Float → Float → Float :=
  powerBy (attemptBy Float.pow)

/-! ## Factorials -/

/-- The largest number whose factorial is in the range of doubles. -/
def largestFactorial : Nat := 170

/-- The product of the numbers from one to `n`. -/
def productUpTo : Nat → Nat
  | 0 => 1
  | n + 1 => (n + 1) * productUpTo n

/-- The natural number that a double stands for, if it stands for one. -/
def natural? (x : Float) : Option Nat :=
  match (Binary.ofFloat x).whole? with
  | some n => if 0 ≤ n then some n.toNat else none
  | none => none

/-- The double nearest to the factorial of a natural number. -/
def factorialOf (n : Nat) : Float :=
  if largestFactorial < n then infinity else nearest (productUpTo n) 1

/-- The factorial of a whole number from zero on, and nothing for any other operand. -/
def factorial? (x : Float) : Option Float :=
  (natural? x).map factorialOf

end Reckoner.Number
