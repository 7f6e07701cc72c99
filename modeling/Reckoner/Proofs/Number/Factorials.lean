import Mathlib.Data.Nat.Factorial.Basic
import Reckoner.Proofs.Number.Nearest

/-!
# Factorials up to the end of the range

The factorial of a natural number is the nearest double to the exact product. From a certain
number on it is infinite without a product being taken, and that number is the first whose product
would be rounded to infinity: the bound decides nothing that rounding would decide otherwise. So
factorials keep the order, as products and rounding do.
-/

namespace Reckoner.Number

open scoped Nat

theorem productUpTo_eq (n : ℕ) : productUpTo n = n ! := by
  induction n with
  | zero => rfl
  | succ n ih => rw [productUpTo, ih, Nat.factorial_succ]

/-- The largest factorial in range is the last one that is not rounded to infinity. -/
theorem factorial_lt_iff (n : ℕ) : n ! < 2 ^ 1024 - 2 ^ 970 ↔ n ≤ largestFactorial := by
  constructor
  · intro hlt
    by_contra hgt
    have hle : (largestFactorial + 1)! ≤ n ! := Nat.factorial_le (not_le.mp hgt)
    have hbeyond : 2 ^ 1024 - 2 ^ 970 ≤ (largestFactorial + 1)! := by decide +kernel
    omega
  · intro hle
    have hwithin : largestFactorial ! < 2 ^ 1024 - 2 ^ 970 := by decide +kernel
    exact (Nat.factorial_le hle).trans_lt hwithin

theorem lt_roundedToInfinity_iff (n : ℕ) :
    (n / (1 : ℕ) : ℚ) < roundedToInfinity ↔ n < 2 ^ 1024 - 2 ^ 970 := by
  have hle : 2 ^ 970 ≤ 2 ^ 1024 := pow_le_pow_right₀ one_le_two (by omega)
  have hcast : roundedToInfinity = ((2 ^ 1024 - 2 ^ 970 : ℕ) : ℚ) := by
    rw [roundedToInfinity, Nat.cast_sub hle, Nat.cast_pow, Nat.cast_pow, Nat.cast_ofNat]
  rw [hcast, Nat.cast_one, div_one, Nat.cast_lt]

/-- The bound agrees with rounding the product. -/
theorem factorialOf_eq_nearest (n : ℕ) : factorialOf n = nearest n ! 1 := by
  rw [factorialOf, productUpTo_eq]
  split_ifs with hlarge
  · have hbeyond : roundedToInfinity ≤ ((n ! : ℕ) / (1 : ℕ) : ℚ) := by
      rw [← not_lt, lt_roundedToInfinity_iff, factorial_lt_iff]
      exact not_le.mpr hlarge
    exact (nearest_eq_infinity one_pos hbeyond).symm
  · rfl

theorem factorialOf_le_factorialOf {n m : ℕ} (h : n ≤ m) : factorialOf n ≤ factorialOf m := by
  rw [factorialOf_eq_nearest, factorialOf_eq_nearest]
  refine nearest_le_nearest one_pos one_pos ?_
  have hle : (n ! : ℚ) ≤ m ! := by exact_mod_cast Nat.factorial_le h
  rwa [Nat.cast_one, div_one, div_one]

theorem factorialAt_eq_ok_iff (pos : Position) (v x : Float) :
    factorialAt pos v = .ok x ↔ ∃ n : ℕ, IsExactly v n ∧ factorialOf n = x := by
  simp only [IsExactly, ← natural?_eq_some_iff, factorialAt, factorial?]
  cases natural? v with
  | none => simp
  | some n => simp

theorem factorialAt_eq_error_iff (pos : Position) (v : Float) (e : EvalError) :
    factorialAt pos v = .error e ↔ ¬ IsNatural v ∧ e = ⟨.noFactorial v, pos⟩ := by
  rw [← factorial?_eq_none_iff, factorialAt]
  cases factorial? v with
  | none => simp [eq_comm]
  | some x => simp

/-- Exactly the natural numbers have a factorial. It is the nearest double to the product as long
as that is finite, which it is up to 170, and infinite from there on; and it keeps the order. -/
theorem factorial_nearest_and_monotone (pos : Position) :
    (∀ v e, factorialAt pos v = .error e ↔ ¬ IsNatural v ∧ e = ⟨.noFactorial v, pos⟩) ∧
      (∀ v (n : ℕ), IsExactly v n → ∃ x, factorialAt pos v = .ok x ∧
        (n ! < 2 ^ 1024 - 2 ^ 970 → IsNearest n ! x) ∧
        (¬ n ! < 2 ^ 1024 - 2 ^ 970 → x = infinity)) ∧
      (∀ n : ℕ, n ! < 2 ^ 1024 - 2 ^ 970 ↔ n ≤ 170) ∧
      ∀ v w x y, factorialAt pos v = .ok x → factorialAt pos w = .ok y → v ≤ w → x ≤ y := by
  refine ⟨factorialAt_eq_error_iff pos, ?_, factorial_lt_iff, ?_⟩
  · intro v n hv
    refine ⟨factorialOf n, (factorialAt_eq_ok_iff pos v _).mpr ⟨n, hv, rfl⟩, ?_⟩
    rw [factorialOf_eq_nearest, ← lt_roundedToInfinity_iff]
    refine ⟨fun hlt => ?_, fun hge => nearest_eq_infinity one_pos (not_lt.mp hge)⟩
    have hnear := isNearest_nearest one_pos hlt
    rwa [Nat.cast_one, div_one] at hnear
  · intro v w x y hx hy hle
    obtain ⟨n, hv, rfl⟩ := (factorialAt_eq_ok_iff pos v x).mp hx
    obtain ⟨m, hw, rfl⟩ := (factorialAt_eq_ok_iff pos w y).mp hy
    apply factorialOf_le_factorialOf
    exact_mod_cast (hv.le_iff hw).mp hle

-- Negative zero stands for zero, whose factorial is one.
example : factorial? (Float.ofBits 0x8000000000000000) = some 1 := by decide +kernel

end Reckoner.Number
