import Reckoner.Number.Shortest
import Reckoner.Proofs.Number.Doubles

/-!
# Rounding to the nearest double

The nearest pattern is computed from a numerator and a denominator, but it depends only on their
quotient. The exponent of its last bit is read off the binary logarithm of the quotient, and the
exact value of a finite double is rounded to that double again. Hence the shortest decimal of a
double, however it was found, is read back as the same double.
-/

namespace Reckoner.Number

/-! ## Quotients -/

theorem powers_ratio (n base : ℕ) (exponent : ℤ) :
    ((n * Nat.pow base exponent.toNat : ℕ) : ℚ) / (Nat.pow base (-exponent).toNat : ℕ) =
      n * (base : ℚ) ^ exponent := by
  rcases Int.le_total 0 exponent with h | h
  · obtain ⟨k, rfl⟩ := Int.eq_ofNat_of_zero_le h
    simp
  · obtain ⟨k, hk⟩ := Int.eq_ofNat_of_zero_le (Int.neg_nonneg_of_nonpos h)
    obtain rfl : exponent = -k := by omega
    simp [div_eq_mul_inv]

section Scaling

variable {base : ℕ} (exponent : ℤ) (n d : ℕ)

theorem scaleBy_ratio (hbase : base ≠ 0) :
    ((scaleBy base exponent n d).1 : ℚ) / (scaleBy base exponent n d).2 =
      (n / d : ℚ) / (base : ℚ) ^ exponent := by
  have hpos : (base : ℚ) ≠ 0 := by exact_mod_cast hbase
  rcases Int.le_total 0 exponent with h | h
  · obtain ⟨k, rfl⟩ := Int.eq_ofNat_of_zero_le h
    simp [scaleBy, div_div]
  · obtain ⟨k, hk⟩ := Int.eq_ofNat_of_zero_le (Int.neg_nonneg_of_nonpos h)
    obtain rfl : exponent = -k := by omega
    simp [scaleBy, div_mul_eq_mul_div]

theorem scaleBy_snd_pos (hbase : base ≠ 0) (hd : 0 < d) :
    0 < (scaleBy base exponent n d).2 :=
  Nat.mul_pos hd (Nat.pow_pos (Nat.pos_of_ne_zero hbase))

end Scaling

theorem roundHalfEven_mul_right (n d : ℕ) {k : ℕ} (hk : 0 < k) :
    roundHalfEven (n * k) (d * k) = roundHalfEven n d := by
  rw [roundHalfEven, roundHalfEven, Nat.mul_div_mul_right _ _ hk, Nat.mul_mod_mul_right,
    ← Nat.mul_assoc]
  simp only [Nat.mul_lt_mul_right hk]

theorem roundHalfEven_one (n : ℕ) : roundHalfEven n 1 = n := by
  simp [roundHalfEven, Nat.mod_one]

theorem roundHalfEven_congr {n d n' d' : ℕ} (hd : 0 < d) (hd' : 0 < d')
    (h : (n / d : ℚ) = n' / d') : roundHalfEven n d = roundHalfEven n' d' := by
  have hcross : n * d' = n' * d := by
    rw [div_eq_div_iff (by positivity) (by positivity)] at h
    exact_mod_cast h
  calc roundHalfEven n d = roundHalfEven (n * d') (d * d') :=
        (roundHalfEven_mul_right n d hd').symm
    _ = roundHalfEven (n' * d) (d' * d) := by rw [hcross, Nat.mul_comm d d']
    _ = roundHalfEven n' d' := roundHalfEven_mul_right n' d' hd

/-! ## The exponent of the last bit -/

theorem log_eq_iff {q : ℚ} (hq : 0 < q) (k : ℤ) :
    Int.log 2 q = k ↔ (2 : ℚ) ^ k ≤ q ∧ q < (2 : ℚ) ^ (k + 1) := by
  have hle := Int.zpow_le_iff_le_log (b := 2) (by norm_num) hq (x := k)
  have hlt := Int.lt_zpow_iff_log_lt (b := 2) (by norm_num) hq (x := k + 1)
  push_cast at hle hlt
  rw [hle, hlt]
  omega

section Exponent

variable {n d : ℕ}

theorem log2_sub_bounds (hn : 0 < n) (hd : 0 < d) :
    (2 : ℚ) ^ ((n.log2 : ℤ) - d.log2 - 1) ≤ n / d ∧
      (n / d : ℚ) < (2 : ℚ) ^ ((n.log2 : ℤ) - d.log2 + 1) := by
  have hnlo : (2 : ℚ) ^ (n.log2 : ℤ) ≤ n := by exact_mod_cast Nat.log2_self_le hn.ne'
  have hnhi : (n : ℚ) < 2 ^ ((n.log2 : ℤ) + 1) := by exact_mod_cast Nat.lt_log2_self
  have hdlo : (2 : ℚ) ^ (d.log2 : ℤ) ≤ d := by exact_mod_cast Nat.log2_self_le hd.ne'
  have hdhi : (d : ℚ) < 2 ^ ((d.log2 : ℤ) + 1) := by exact_mod_cast Nat.lt_log2_self
  have hdpos : (0 : ℚ) < d := by exact_mod_cast hd
  constructor
  · rw [sub_sub, zpow_sub₀ two_ne_zero]
    exact div_le_div₀ (by positivity) hnlo hdpos hdhi.le
  · rw [sub_add_eq_add_sub, zpow_sub₀ two_ne_zero]
    exact div_lt_div₀ hnhi hdlo (by positivity) (by positivity)

/-- The guess for the exponent is too small by one exactly when the quotient, scaled by it, has a
bit too many. -/
theorem le_scaled_iff (hd : 0 < d) :
    Nat.pow 2 53 ≤ (scaleBy 2 ((n.log2 : ℤ) - d.log2 - 53) n d).1 /
        (scaleBy 2 ((n.log2 : ℤ) - d.log2 - 53) n d).2 ↔
      (2 : ℚ) ^ ((n.log2 : ℤ) - d.log2) ≤ n / d := by
  have hpos := scaleBy_snd_pos ((n.log2 : ℤ) - d.log2 - 53) n d two_ne_zero hd
  have hsplit : (2 : ℚ) ^ ((n.log2 : ℤ) - d.log2) =
      2 ^ (53 : ℤ) * 2 ^ ((n.log2 : ℤ) - d.log2 - 53) := by
    rw [← zpow_add₀ two_ne_zero]
    congr 1
    omega
  rw [Nat.le_div_iff_mul_le hpos, ← @Nat.cast_le ℚ, Nat.cast_mul,
    ← le_div_iff₀ (by exact_mod_cast hpos), scaleBy_ratio _ n d two_ne_zero,
    le_div_iff₀ (by positivity), hsplit]
  norm_num

/-- The last bit lies 52 places below the leading one, but not below that of the least double. -/
theorem unitExponent_eq (hn : 0 < n) (hd : 0 < d) :
    unitExponent n d = max Binary.leastExponent (Int.log 2 (n / d : ℚ) - 52) := by
  have hq : (0 : ℚ) < n / d := by positivity
  obtain ⟨hlo, hhi⟩ := log2_sub_bounds hn hd
  rw [unitExponent]
  congr 1
  -- The quotient lies within a factor of two of the guess on either side; the test tells which.
  split_ifs with h
  · have hlog := (log_eq_iff hq _).2 ⟨(le_scaled_iff hd).1 h, hhi⟩
    omega
  · have hbelow : (n / d : ℚ) < 2 ^ ((n.log2 : ℤ) - d.log2 - 1 + 1) := by
      simpa using lt_of_not_ge (mt (le_scaled_iff hd).2 h)
    have hlog := (log_eq_iff hq _).2 ⟨hlo, hbelow⟩
    omega

end Exponent

/-- The nearest pattern depends only on the quotient. -/
theorem nearestPattern_congr {n d n' d' : ℕ} (hd : 0 < d) (hd' : 0 < d')
    (h : (n / d : ℚ) = n' / d') : nearestPattern n d = nearestPattern n' d' := by
  have hzero : n = 0 ↔ n' = 0 := by
    have hn : (n / d : ℚ) = 0 ↔ n = 0 := by simp [hd.ne']
    have hn' : (n' / d' : ℚ) = 0 ↔ n' = 0 := by simp [hd'.ne']
    rw [← hn, h, hn']
  rcases Nat.eq_zero_or_pos n with hn | hn
  · rw [nearestPattern, nearestPattern, if_pos hn, if_pos (hzero.1 hn)]
  · have hn' : 0 < n' := Nat.pos_of_ne_zero (mt hzero.2 hn.ne')
    have hexponent : unitExponent n d = unitExponent n' d' := by
      rw [unitExponent_eq hn hd, unitExponent_eq hn' hd', h]
    have hround := roundHalfEven_congr
      (scaleBy_snd_pos (unitExponent n' d') n d two_ne_zero hd)
      (scaleBy_snd_pos (unitExponent n' d') n' d' two_ne_zero hd')
      (by rw [scaleBy_ratio _ _ _ two_ne_zero, scaleBy_ratio _ _ _ two_ne_zero, h])
    rw [nearestPattern, nearestPattern, if_neg hn.ne', if_neg hn'.ne']
    simp only [hexponent, hround]

/-! ## Rounding the value of a double -/

/-- The significands and exponents of finite doubles: the significand has 53 bits, or fewer if the
exponent is the least one. -/
structure Canonical (significand : ℕ) (exponent : ℤ) : Prop where
  lt : significand < 2 ^ 53
  least_le : Binary.leastExponent ≤ exponent
  full : 2 ^ 52 ≤ significand ∨ exponent = Binary.leastExponent

section Canonical

variable {significand : ℕ} {exponent : ℤ} (h : Canonical significand exponent) {n d : ℕ}
  (hn : 0 < n) (hd : 0 < d) (hratio : (n / d : ℚ) = significand * 2 ^ exponent)

include h hn hd hratio

theorem unitExponent_of_canonical : unitExponent n d = exponent := by
  have hq : (0 : ℚ) < significand * 2 ^ exponent := by
    rw [← hratio]
    positivity
  have hupper : (significand : ℚ) * 2 ^ exponent < 2 ^ (53 + exponent) := by
    rw [zpow_add₀ two_ne_zero]
    gcongr
    exact_mod_cast h.lt
  have hlt := (Int.lt_zpow_iff_log_lt (b := 2) (by norm_num) hq).1 (by exact_mod_cast hupper)
  have hleast := h.least_le
  rw [unitExponent_eq hn hd, hratio]
  -- A full significand fixes the logarithm; another one has the least exponent, and is below it.
  rcases h.full with hfull | hfull
  · have hlower : (2 : ℚ) ^ (52 + exponent) ≤ significand * 2 ^ exponent := by
      rw [zpow_add₀ two_ne_zero]
      gcongr
      exact_mod_cast hfull
    have hle := (Int.zpow_le_iff_le_log (b := 2) (by norm_num) hq).1 (by exact_mod_cast hlower)
    omega
  · omega

theorem nearestPattern_of_canonical :
    nearestPattern n d =
      min ((exponent - Binary.leastExponent).toNat * 2 ^ 52 + significand) infinitePattern := by
  have hround : roundHalfEven (scaleBy 2 exponent n d).1 (scaleBy 2 exponent n d).2 =
      significand := by
    rw [← roundHalfEven_one significand]
    refine roundHalfEven_congr (scaleBy_snd_pos exponent n d two_ne_zero hd) one_pos ?_
    rw [scaleBy_ratio _ _ _ two_ne_zero, hratio]
    push_cast
    field_simp
  rw [nearestPattern, if_neg hn.ne']
  simp only [unitExponent_of_canonical h hn hd hratio, hround]
  rfl

end Canonical

theorem ofPattern_eq (pattern : ℕ) :
    Binary.ofPattern pattern =
      if pattern / 2 ^ 52 % 2 ^ 11 = 2047 then
        if pattern % 2 ^ 52 = 0 then .infinite (decide (2 ^ 63 ≤ pattern)) else .nan
      else if pattern / 2 ^ 52 % 2 ^ 11 = 0 then
        .finite (decide (2 ^ 63 ≤ pattern)) (pattern % 2 ^ 52) Binary.leastExponent
      else
        .finite (decide (2 ^ 63 ≤ pattern)) (pattern % 2 ^ 52 + 2 ^ 52)
          (Binary.leastExponent + (pattern / 2 ^ 52 % 2 ^ 11 - 1 : ℕ)) :=
  rfl

section Patterns

variable {pattern significand : ℕ} {exponent : ℤ} (h : pattern ≤ infinitePattern)

include h in
/-- Patterns up to that of infinity stand for infinity or for a finite double that is not
negative. -/
theorem ofPattern_cases :
    (Binary.ofPattern pattern = .infinite false ∧ pattern = infinitePattern) ∨
      ∃ significand exponent, Binary.ofPattern pattern = .finite false significand exponent := by
  rw [infinitePattern] at h ⊢
  have hpositive : decide (2 ^ 63 ≤ pattern) = false := by
    rw [decide_eq_false_iff_not]
    omega
  rw [ofPattern_eq, hpositive]
  split_ifs with hspecial hzero hsubnormal
  · exact .inl ⟨rfl, by omega⟩
  · omega
  · exact .inr ⟨_, _, rfl⟩
  · exact .inr ⟨_, _, rfl⟩

variable (hfinite : Binary.ofPattern pattern = .finite false significand exponent)

include h hfinite

theorem canonical_of_ofPattern :
    Canonical significand exponent ∧
      pattern = (exponent - Binary.leastExponent).toNat * 2 ^ 52 + significand := by
  rw [infinitePattern] at h
  rw [ofPattern_eq] at hfinite
  split_ifs at hfinite with hspecial hzero hsubnormal
  · obtain ⟨-, hsignificand, hexponent⟩ := Binary.finite.inj hfinite
    exact ⟨⟨by omega, by omega, .inr hexponent.symm⟩, by omega⟩
  · obtain ⟨-, hsignificand, hexponent⟩ := Binary.finite.inj hfinite
    exact ⟨⟨by omega, by omega, .inl (by omega)⟩, by omega⟩

theorem pattern_eq_zero_iff : pattern = 0 ↔ significand = 0 := by
  obtain ⟨hcanonical, hpattern⟩ := canonical_of_ofPattern h hfinite
  have hfull := hcanonical.full
  omega

/-- The value of a finite double is rounded to the same double. -/
theorem nearestPattern_ofPattern :
    nearestPattern (significand * Nat.pow 2 exponent.toNat) (Nat.pow 2 (-exponent).toNat) =
      pattern := by
  obtain ⟨hcanonical, hpattern⟩ := canonical_of_ofPattern h hfinite
  rcases Nat.eq_zero_or_pos significand with hzero | hpos
  · rw [nearestPattern, if_pos (by rw [hzero, Nat.zero_mul]),
      (pattern_eq_zero_iff h hfinite).2 hzero]
  · have hn : 0 < significand * Nat.pow 2 exponent.toNat := Nat.mul_pos hpos (Nat.pow_pos two_pos)
    have hd : 0 < Nat.pow 2 (-exponent).toNat := Nat.pow_pos two_pos
    rw [nearestPattern_of_canonical hcanonical hn hd (powers_ratio significand 2 exponent),
      ← hpattern, min_eq_left h]

end Patterns

/-! ## Decimals -/

namespace Decimal

/-- The exact value of a decimal. -/
def value (d : Decimal) : ℚ :=
  d.digits * 10 ^ d.exponent

/-- The double nearest to a decimal. -/
def double (d : Decimal) : Float :=
  Float.ofBits (UInt64.ofNat d.pattern)

theorem pattern_eq_nearestPattern {d : Decimal} {n m : ℕ} (hm : 0 < m)
    (h : (n / m : ℚ) = d.value) : d.pattern = nearestPattern n m := by
  refine nearestPattern_congr (Nat.pow_pos (by norm_num)) hm ?_
  rw [powers_ratio, h]
  rfl

/-- Decimals of the same value are read as the same double. -/
theorem pattern_congr {d e : Decimal} (h : d.value = e.value) : d.pattern = e.pattern := by
  refine pattern_eq_nearestPattern (Nat.pow_pos (by norm_num)) ?_
  rw [powers_ratio, h]
  rfl

theorem value_exact (significand : ℕ) (exponent : ℤ) :
    (exact significand exponent).value = significand * 2 ^ exponent := by
  rw [exact]
  split_ifs with h
  · obtain ⟨k, rfl⟩ := Int.eq_ofNat_of_zero_le h
    simp [value]
  · obtain ⟨k, hk⟩ := Int.eq_ofNat_of_zero_le (a := -exponent) (by omega)
    obtain rfl : exponent = -k := by omega
    have hten : (10 : ℚ) = 2 * 5 := by norm_num
    simp only [value, neg_neg, Int.toNat_natCast, hten, zpow_neg, zpow_natCast, mul_pow, Nat.pow_eq]
    push_cast
    field_simp

/-- The shortest decimal of a value is read as the double nearest to the value. -/
theorem pattern_shortest (significand : ℕ) (exponent : ℤ) :
    (shortest significand exponent).pattern =
      nearestPattern (significand * Nat.pow 2 exponent.toNat) (Nat.pow 2 (-exponent).toNat) := by
  simp only [shortest]
  -- A candidate was tested for being read as the double; without one, the decimal is exact.
  generalize hfound : List.findSome? _ _ = found
  cases found with
  | none =>
      refine pattern_eq_nearestPattern (Nat.pow_pos two_pos) ?_
      rw [powers_ratio, Option.getD_none, value_exact]
      rfl
  | some candidate =>
      obtain ⟨places, -, hcandidate⟩ := List.exists_of_findSome?_eq_some hfound
      simpa using List.find?_some hcandidate

theorem pattern_eq_zero {d : Decimal} (h : d.digits = 0) : d.pattern = 0 := by
  rw [pattern, nearestPattern, h, if_pos (Nat.zero_mul _)]

end Decimal

end Reckoner.Number
