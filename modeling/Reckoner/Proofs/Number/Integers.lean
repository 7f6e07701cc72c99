import Reckoner.Number.Display
import Reckoner.Proofs.Number.Rounding
import Reckoner.Proofs.Number.Whole

/-!
# Natural numbers that are doubles

Every natural number up to `2 ^ 53` is the value of a double. It is therefore rounded to that double
in whichever way the quotient is written, and the double is printed as the digits of the number.
-/

namespace Reckoner.Number

/-- A canonical significand and exponent are those of the double whose pattern holds them, if the
exponent is not that of infinity. -/
theorem ofPattern_of_canonical {significand : ℕ} {exponent : ℤ}
    (h : Canonical significand exponent) (hle : exponent ≤ 971) :
    Binary.ofPattern ((exponent - Binary.leastExponent).toNat * 2 ^ 52 + significand) =
      .finite false significand exponent := by
  have hlt := h.lt
  have hleast := h.least_le
  have hfull := h.full
  rw [Binary.leastExponent] at hleast hfull
  rw [ofPattern_eq, Binary.leastExponent]
  have hpositive :
      decide (2 ^ 63 ≤ (exponent - -1074).toNat * 2 ^ 52 + significand) = false := by
    rw [decide_eq_false_iff_not]
    omega
  rw [hpositive]
  split_ifs with hspecial hzero hsubnormal
  · omega
  · omega
  · congr 1 <;> omega
  · congr 1 <;> omega

theorem value?_nearest_of_canonical {n d significand : ℕ} {exponent : ℤ} (hn : 0 < n) (hd : 0 < d)
    (h : Canonical significand exponent) (hle : exponent ≤ 971)
    (hratio : (n / d : ℚ) = significand * 2 ^ exponent) :
    (Binary.ofFloat (nearest n d)).value? = some (n / d : ℚ) := by
  have hpattern := nearestPattern_of_canonical h hn hd hratio
  have hbelow : (exponent - Binary.leastExponent).toNat * 2 ^ 52 + significand ≤
      infinitePattern := by
    have hlt := h.lt
    rw [infinitePattern, Binary.leastExponent]
    omega
  rw [Nat.min_eq_left hbelow] at hpattern
  rw [Binary.ofFloat, toNat_toBits_nearest, hpattern, ofPattern_of_canonical h hle, hratio]
  simp [Binary.value?]

theorem exists_canonical_of_le {n : ℕ} (hn : 0 < n) (hle : n ≤ 2 ^ 53) :
    ∃ significand exponent, Canonical significand exponent ∧ exponent ≤ 971 ∧
      (n : ℚ) = significand * 2 ^ exponent := by
  rcases Nat.lt_or_eq_of_le hle with hlt | rfl
  · -- The number is shifted until its leading bit is the last one of the significand.
    have hlog : n.log2 ≤ 52 := Nat.lt_succ_iff.mp ((Nat.log2_lt hn.ne').mpr hlt)
    have hlo := Nat.log2_self_le hn.ne'
    have hhi : n < 2 ^ (n.log2 + 1) := Nat.lt_log2_self
    have hshift : 2 ^ n.log2 * 2 ^ (52 - n.log2) = 2 ^ 52 := by
      rw [← Nat.pow_add]
      congr 1
      omega
    have hpos : 0 < 2 ^ (52 - n.log2) := Nat.two_pow_pos _
    refine ⟨n * 2 ^ (52 - n.log2), -(52 - n.log2 : ℕ), ⟨?_, ?_, Or.inl ?_⟩, by omega, ?_⟩
    · calc n * 2 ^ (52 - n.log2) < 2 ^ (n.log2 + 1) * 2 ^ (52 - n.log2) :=
            Nat.mul_lt_mul_of_pos_right hhi hpos
        _ = 2 ^ 53 := by
            rw [← Nat.pow_add]
            congr 1
            omega
    · rw [Binary.leastExponent]
      omega
    · rw [← hshift]
      exact Nat.mul_le_mul_right _ hlo
    · rw [zpow_neg, zpow_natCast]
      push_cast
      field_simp
  · refine ⟨2 ^ 52, 1, ⟨by norm_num, by decide, Or.inl le_rfl⟩, by norm_num, by norm_num⟩

/-- A quotient that is a natural number up to `2 ^ 53` is rounded to a double of the same value. -/
theorem value?_nearest_of_le {n m d : ℕ} (hn : n ≤ 2 ^ 53) (hd : 0 < d)
    (hratio : (m / d : ℚ) = n) : (Binary.ofFloat (nearest m d)).value? = some (n : ℚ) := by
  rcases Nat.eq_zero_or_pos n with rfl | hpos
  · have hm : m = 0 := by
      rw [Nat.cast_zero, div_eq_zero_iff] at hratio
      have hd' : (d : ℚ) ≠ 0 := by positivity
      exact_mod_cast hratio.resolve_right hd'
    rw [hm, Binary.ofFloat, toNat_toBits_nearest, nearestPattern, if_pos rfl, ofPattern_eq]
    simp [Binary.value?]
  · obtain ⟨significand, exponent, hcanonical, hle, hvalue⟩ := exists_canonical_of_le hpos hn
    have hm : 0 < m := by
      rcases Nat.eq_zero_or_pos m with rfl | hm
      · rw [Nat.cast_zero, zero_div] at hratio
        exact absurd hratio.symm (by positivity)
      · exact hm
    rw [← hratio]
    exact value?_nearest_of_canonical hm hd hcanonical hle (hratio.trans hvalue)

/-- A double whose value is a natural number below the limit is printed as its digits. -/
theorem plainText_of_value? {x : Float} {n : ℕ} (h : (Binary.ofFloat x).value? = some (n : ℚ))
    (hn : n < plainLimit) : plainText x = toString n := by
  have hwhole : (Binary.ofFloat x).whole? = some (n : ℤ) := by
    rw [Binary.whole?_eq_some_iff]
    exact_mod_cast h
  have hsign : decide ((n : ℤ) < 0) = false := by
    rw [decide_eq_false_iff_not]
    omega
  rw [plainText, Binary.plainText, hwhole]
  simp only [Int.natAbs_natCast, if_pos hn, hsign, signed, Bool.false_eq_true, if_false]
  exact Nat.repr_eq_ofList_toDigits.symm

end Reckoner.Number
