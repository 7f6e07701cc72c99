import Mathlib.Algebra.Order.Field.Basic
import Mathlib.Algebra.Order.Ring.Rat
import Mathlib.Tactic.NormNum
import Mathlib.Tactic.Positivity
import Reckoner.Eval.Error

/-!
# Doubles that are whole numbers

The exact value of a finite double is a fraction whose denominator is a power of two. A double
stands for a whole number if its exact value is one, and the operands that have a factorial are
those that stand for a natural number.
-/

namespace Reckoner.Number

namespace Binary

/-- The exact value of what a finite double stands for. -/
def value? : Binary → Option ℚ
  | .finite negative significand exponent =>
    some ((if negative then -1 else 1) * (significand * 2 ^ exponent))
  | _ => none

section Magnitude

variable (significand : ℕ) (exponent n : ℤ)

/-- A significand times a power of two is whole if the denominator divides the significand. -/
theorem magnitude_eq_iff :
    (significand : ℚ) * 2 ^ exponent = n ↔
      significand % 2 ^ (-exponent).toNat = 0 ∧
        ((significand / 2 ^ (-exponent).toNat * 2 ^ exponent.toNat : ℕ) : ℤ) = n := by
  rcases Int.le_total 0 exponent with h | h
  · obtain ⟨k, rfl⟩ := Int.eq_ofNat_of_zero_le h
    have hzero : (-(k : ℤ)).toNat = 0 := by omega
    rw [hzero, Int.toNat_natCast, zpow_natCast, pow_zero, Nat.mod_one, Nat.div_one]
    norm_cast
    simp
  · obtain ⟨k, hk⟩ := Int.eq_ofNat_of_zero_le (Int.neg_nonneg_of_nonpos h)
    obtain rfl : exponent = -k := by omega
    have hzero : (-(k : ℤ)).toNat = 0 := by omega
    have hpos : (2 : ℚ) ^ k ≠ 0 := by positivity
    rw [neg_neg, Int.toNat_natCast, hzero, pow_zero, Nat.mul_one, zpow_neg, zpow_natCast,
      ← div_eq_mul_inv, div_eq_iff hpos]
    norm_cast
    constructor
    · intro hn
      have hsign : 0 ≤ n * 2 ^ k := hn ▸ Int.natCast_nonneg significand
      obtain ⟨m, rfl⟩ := Int.eq_ofNat_of_zero_le (nonneg_of_mul_nonneg_left hsign (by positivity))
      obtain rfl : significand = m * 2 ^ k := by exact_mod_cast hn
      rw [Nat.mul_div_cancel m (by positivity)]
      exact ⟨Nat.mul_mod_left m _, rfl⟩
    · rintro ⟨hmod, rfl⟩
      exact_mod_cast (Nat.div_mul_cancel (Nat.dvd_of_mod_eq_zero hmod)).symm

end Magnitude

/-- A double stands for a whole number if its exact value is that number. -/
theorem whole?_eq_some_iff (b : Binary) (n : ℤ) : b.whole? = some n ↔ b.value? = some (n : ℚ) := by
  cases b with
  | nan => simp [whole?, value?]
  | infinite negative => simp [whole?, value?]
  | finite negative significand exponent =>
      cases negative with
      | false =>
          rw [value?, Option.some_inj, if_neg Bool.false_ne_true, one_mul, magnitude_eq_iff]
          simp [whole?]
      | true =>
          have hneg : -1 * ((significand : ℚ) * 2 ^ exponent) = n ↔
              (significand : ℚ) * 2 ^ exponent = (-n : ℤ) := by
            rw [neg_one_mul, neg_eq_iff_eq_neg]
            push_cast
            rfl
          rw [value?, Option.some_inj, if_pos rfl, hneg, magnitude_eq_iff]
          simp [whole?, neg_eq_iff_eq_neg]

end Binary

/-- Whether a double stands for a natural number: it is finite, whole and not negative. -/
def IsNatural (x : Float) : Prop :=
  ∃ n : ℕ, (Binary.ofFloat x).value? = some (n : ℚ)

theorem natural?_eq_some_iff (x : Float) (n : ℕ) :
    natural? x = some n ↔ (Binary.ofFloat x).value? = some (n : ℚ) := by
  have hwhole := Binary.whole?_eq_some_iff (Binary.ofFloat x) n
  push_cast at hwhole
  rw [← hwhole, natural?]
  cases (Binary.ofFloat x).whole? with
  | none => simp
  | some m =>
      rw [Option.some_inj]
      dsimp only
      split <;> simp <;> omega

/-- The operands that have a factorial are the natural numbers. -/
theorem factorial?_eq_none_iff (x : Float) : factorial? x = none ↔ ¬ IsNatural x := by
  rw [factorial?, Option.map_eq_none_iff, IsNatural]
  simp only [← natural?_eq_some_iff]
  cases natural? x <;> simp

end Reckoner.Number
