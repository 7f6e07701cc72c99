import Reckoner.Proofs.Number.Exactness

/-!
# Doubles are ordered by their exact values

Doubles are compared by their exponents first and by their significands then. Since a significand
is full unless the exponent is the least one, this is the order of the exact values. Infinity is
above all of them, and a double other than zero is told by its exact value.
-/

namespace Reckoner.Number

open Float.Model (Format)
open Float.Model.UnpackedFloat

theorem canonical_of_ofFloat {x : Float} {negative : Bool} {significand : ℕ} {exponent : ℤ}
    (h : Binary.ofFloat x = .finite negative significand exponent) :
    Canonical significand exponent ∧ exponent ≤ 971 := by
  have hleast : Binary.leastExponent = -1074 := rfl
  rw [Binary.ofFloat, ofPattern_eq] at h
  split_ifs at h with hspecial hzero hsubnormal
  · obtain ⟨-, hsignificand, hexponent⟩ := Binary.finite.inj h
    exact ⟨⟨by omega, by omega, .inr hexponent.symm⟩, by omega⟩
  · obtain ⟨-, hsignificand, hexponent⟩ := Binary.finite.inj h
    exact ⟨⟨by omega, by omega, .inl (by omega)⟩, by omega⟩

theorem valid_toBits (x : Float) : Format.binary64.Valid x.toBits.toBitVec := by
  obtain ⟨⟨bits, hvalid⟩⟩ := x
  exact hvalid

/-- A double is told by what it stands for. -/
theorem ofFloat_injective : Function.Injective Binary.ofFloat := by
  intro x y h
  have hbits : x.toBits.toBitVec = y.toBits.toBitVec := by
    rw [← pack_unpack (valid_toBits x), unpack_eq, h, ← unpack_eq, pack_unpack (valid_toBits y)]
  rw [← ofBits_toBits x, UInt64.toBitVec_inj.1 hbits, ofBits_toBits]

/-! ## Comparing magnitudes -/

section Magnitude

variable {m m' : ℕ} {e e' : ℤ} (h : Canonical m e) (h' : Canonical m' e')

include h h'

theorem magnitude_lt (hlt : e < e') : (m : ℚ) * 2 ^ e < m' * 2 ^ e' := by
  have hfull : 2 ^ 52 ≤ m' := by
    have hleast := h.least_le
    exact h'.full.resolve_right (by omega)
  have hm : (m : ℚ) < 2 ^ (53 : ℤ) := by exact_mod_cast h.lt
  have hm' : (2 : ℚ) ^ (52 : ℤ) ≤ m' := by exact_mod_cast hfull
  calc (m : ℚ) * 2 ^ e < 2 ^ (53 : ℤ) * 2 ^ e := by gcongr
    _ = 2 ^ (53 + e) := (zpow_add₀ two_ne_zero _ _).symm
    _ ≤ 2 ^ (52 + e') := zpow_le_zpow_right₀ one_le_two (by omega)
    _ = 2 ^ (52 : ℤ) * 2 ^ e' := zpow_add₀ two_ne_zero _ _
    _ ≤ m' * 2 ^ e' := by gcongr

theorem compare_magnitude :
    (compare e e').then (compare m m') = compare ((m : ℚ) * 2 ^ e) (m' * 2 ^ e') := by
  rcases lt_trichotomy e e' with hlt | rfl | hgt
  · rw [compare_lt_iff_lt.mpr hlt, compare_lt_iff_lt.mpr (magnitude_lt h h' hlt)]
    rfl
  · have hscale : (0 : ℚ) < 2 ^ e := by positivity
    rw [compare_eq_iff_eq.mpr rfl, Ordering.eq_then]
    rcases lt_trichotomy m m' with hlt | rfl | hgt
    · rw [compare_lt_iff_lt.mpr hlt, eq_comm, compare_lt_iff_lt]
      gcongr
    · rw [compare_eq_iff_eq.mpr rfl, compare_eq_iff_eq.mpr rfl]
    · rw [compare_gt_iff_gt.mpr hgt, eq_comm, compare_gt_iff_gt]
      gcongr
  · rw [compare_gt_iff_gt.mpr hgt, compare_gt_iff_gt.mpr (magnitude_lt h' h hgt)]
    rfl

end Magnitude

theorem compare_neg_neg (a b : ℚ) : compare (-a) (-b) = (compare a b).swap := by
  rcases lt_trichotomy a b with hlt | rfl | hgt
  · rw [compare_lt_iff_lt.mpr hlt, compare_gt_iff_gt.mpr (neg_lt_neg hlt)]
    rfl
  · rw [compare_eq_iff_eq.mpr rfl, compare_eq_iff_eq.mpr rfl]
    rfl
  · rw [compare_gt_iff_gt.mpr hgt, compare_lt_iff_lt.mpr (neg_lt_neg hgt)]
    rfl

/-! ## Comparing doubles -/

theorem le_iff_compare (x y : Float) :
    x ≤ y ↔ ∃ o, (unpack Format.binary64 x.toBits.toBitVec).compare
      (unpack Format.binary64 y.toBits.toBitVec) = some o ∧ o.isLE = true := by
  have hle : (x ≤ y) = (decide (x.toModel ≤ y.toModel) = true) := rfl
  rw [hle, decide_eq_true_iff]
  change ((unpack Format.binary64 x.toBits.toBitVec).compare
    (unpack Format.binary64 y.toBits.toBitVec)).any (·.isLE) = true ↔ _
  exact Option.any_eq_true _ _

/-- The exact value of a sign, a significand and an exponent. -/
def signedValue (negative : Bool) (m : ℕ) (e : ℤ) : ℚ :=
  (if negative then -1 else 1) * (m * 2 ^ e)

theorem compare_finite (negative negative' : Bool) {m m' : ℕ} {e e' : ℤ} (h : Canonical m e)
    (h' : Canonical m' e') (hm : 0 < m) (hm' : 0 < m') :
    Float.Model.UnpackedFloat.compare (.finite (signOf negative) m e hm)
        (.finite (signOf negative') m' e' hm') =
      some (compare (signedValue negative m e) (signedValue negative' m' e')) := by
  have hpos : (0 : ℚ) < m * 2 ^ e := by positivity
  have hpos' : (0 : ℚ) < m' * 2 ^ e' := by positivity
  cases negative <;> cases negative' <;>
    simp only [signOf, signedValue, Float.Model.UnpackedFloat.compare, if_true, if_false,
      Bool.false_eq_true, one_mul, neg_one_mul, Option.some.injEq]
  · exact compare_magnitude h h'
  · rw [eq_comm, compare_gt_iff_gt]
    linarith
  · rw [eq_comm, compare_lt_iff_lt]
    linarith
  · rw [compare_magnitude h h', compare_neg_neg]

theorem signedValue_neg_iff (negative : Bool) {m : ℕ} (e : ℤ) (hm : 0 < m) :
    (signedValue negative m e < 0 ↔ negative = true) ∧
      (0 < signedValue negative m e ↔ negative = false) := by
  have hpos : (0 : ℚ) < m * 2 ^ e := by positivity
  cases negative with
  | true => simp [signedValue, hpos, hpos.le]
  | false => simp [signedValue, hpos, hpos.le]

theorem compare_zero_finite {sign : Sign} {negative : Bool} {m : ℕ} {e : ℤ} (hm : 0 < m) :
    Float.Model.UnpackedFloat.compare (.zero sign) (.finite (signOf negative) m e hm) =
        some (compare 0 (signedValue negative m e)) ∧
      Float.Model.UnpackedFloat.compare (.finite (signOf negative) m e hm) (.zero sign) =
        some (compare (signedValue negative m e) 0) := by
  obtain ⟨hneg, hpos⟩ := signedValue_neg_iff negative e hm
  cases negative with
  | true =>
      have hlt := hneg.mpr rfl
      rw [compare_gt_iff_gt.mpr hlt, compare_lt_iff_lt.mpr hlt]
      exact ⟨rfl, rfl⟩
  | false =>
      have hlt := hpos.mpr rfl
      rw [compare_lt_iff_lt.mpr hlt, compare_gt_iff_gt.mpr hlt]
      exact ⟨rfl, rfl⟩

namespace IsExactly

variable {x y : Float} {q r : ℚ}

theorem exists_finite (h : IsExactly x q) :
    ∃ negative m e, Binary.ofFloat x = .finite negative m e ∧ q = signedValue negative m e := by
  unfold IsExactly at h
  cases hx : Binary.ofFloat x with
  | nan => simp [hx, Binary.value?] at h
  | infinite negative => simp [hx, Binary.value?] at h
  | finite negative m e =>
      rw [hx] at h
      exact ⟨negative, m, e, rfl, (Option.some.inj h).symm⟩

theorem of_positive {m : ℕ} {e : ℤ} (h : Binary.ofFloat x = .finite false m e) :
    IsExactly x (m * 2 ^ e) :=
  .of_finite false m e h (by simp)

/-- Finite doubles compare as their exact values. -/
theorem compare_eq (hx : IsExactly x q) (hy : IsExactly y r) :
    (unpack Format.binary64 x.toBits.toBitVec).compare
      (unpack Format.binary64 y.toBits.toBitVec) = some (compare q r) := by
  obtain ⟨negative, m, e, hbinary, rfl⟩ := hx.exists_finite
  obtain ⟨negative', m', e', hbinary', rfl⟩ := hy.exists_finite
  rw [unpack_eq, unpack_eq, hbinary, hbinary', Binary.unpacked, Binary.unpacked]
  have hzero {negative : Bool} {e : ℤ} : signedValue negative 0 e = 0 := by simp [signedValue]
  split_ifs with hm hm' hm'
  · rw [hm, hm', hzero, hzero, compare_eq_iff_eq.mpr rfl]
    rfl
  · rw [hm, hzero]
    exact (compare_zero_finite _).1
  · rw [hm', hzero]
    exact (compare_zero_finite _).2
  · exact compare_finite _ _ (canonical_of_ofFloat hbinary).1 (canonical_of_ofFloat hbinary').1 _ _

theorem beq_iff (hx : IsExactly x q) (hy : IsExactly y r) : (x == y) = true ↔ q = r := by
  rw [beq_iff_compare, hx.compare_eq hy, Option.some_inj, compare_eq_iff_eq]

theorem le_iff (hx : IsExactly x q) (hy : IsExactly y r) : x ≤ y ↔ q ≤ r := by
  rw [le_iff_compare, hx.compare_eq hy]
  simp only [Option.some_inj, exists_eq_left']
  rw [← Ordering.ne_gt_iff_isLE, compare_gt_iff_gt, not_lt]

/-- A double other than zero is told by its exact value. -/
theorem eq_of_ne_zero (hx : IsExactly x q) (hy : IsExactly y q) (hq : q ≠ 0) : x = y := by
  obtain ⟨negative, m, e, hbinary, rfl⟩ := hx.exists_finite
  obtain ⟨negative', m', e', hbinary', hvalue⟩ := hy.exists_finite
  have hpos {b : Bool} {n : ℕ} {k : ℤ} (h : signedValue b n k ≠ 0) : 0 < n := by
    rw [Nat.pos_iff_ne_zero]
    rintro rfl
    simp [signedValue] at h
  have hm := hpos hq
  have hm' := hpos (hvalue ▸ hq)
  have hcompare := compare_finite negative negative'
    (canonical_of_ofFloat hbinary).1 (canonical_of_ofFloat hbinary').1 hm hm'
  rw [hvalue, compare_eq_iff_eq.mpr rfl] at hcompare
  apply ofFloat_injective
  rw [hbinary, hbinary']
  cases negative <;> cases negative' <;>
    simp_all [signOf, Float.Model.UnpackedFloat.compare, Ordering.then_eq_eq]

end IsExactly

theorem ofFloat_infinity : Binary.ofFloat infinity = .infinite false := by
  rw [Binary.ofFloat, infinity, toBits_ofBits (by decide)]
  decide

theorem le_infinity {x : Float} (h : (∃ q, IsExactly x q) ∨ x = infinity) : x ≤ infinity := by
  rw [le_iff_compare, unpack_eq, unpack_eq, ofFloat_infinity]
  rcases h with ⟨q, hx⟩ | rfl
  · obtain ⟨negative, m, e, hbinary, -⟩ := hx.exists_finite
    have hlt : (Binary.finite negative m e).unpacked.compare (.infinity .positive) = some .lt := by
      rw [Binary.unpacked]
      split_ifs <;> rfl
    rw [hbinary]
    exact ⟨.lt, hlt, rfl⟩
  · rw [ofFloat_infinity]
    exact ⟨.eq, rfl, rfl⟩

end Reckoner.Number
