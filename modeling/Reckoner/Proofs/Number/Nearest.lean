import Reckoner.Proofs.Number.Integers
import Reckoner.Proofs.Number.Order

/-!
# The nearest double is nearest

Around a positive quotient the doubles are the multiples of a power of two, whose exponent is that
of the last bit. The quotient is rounded to the nearest multiple, and a half to the even one. No
double is nearer, since doubles with a smaller last bit lie below all those multiples that can be
taken. The result is infinite exactly from the number on that lies halfway between the greatest
double and the next power of two.
-/

namespace Reckoner.Number

/-! ## Rounding to whole numbers -/

theorem abs_sub_roundHalfEven (n : ℕ) {d : ℕ} (hd : 0 < d) :
    |(n / d : ℚ) - roundHalfEven n d| ≤ 1 / 2 ∧
      (|(n / d : ℚ) - roundHalfEven n d| = 1 / 2 → Even (roundHalfEven n d)) := by
  have hpos : (0 : ℚ) < d := by exact_mod_cast hd
  have hsplit : (n / d : ℚ) = (n / d : ℕ) + (n % d : ℕ) / d := by
    have hdivmod : (n : ℚ) = d * (n / d : ℕ) + (n % d : ℕ) := by
      exact_mod_cast (Nat.div_add_mod n d).symm
    field_simp
    linarith
  have hrem : (0 : ℚ) ≤ (n % d : ℕ) / d := by positivity
  rw [hsplit, roundHalfEven]
  split_ifs with hlow hhigh
  · have hhalf : ((n % d : ℕ) / d : ℚ) < 1 / 2 := by
      rw [div_lt_div_iff₀ hpos two_pos]
      exact_mod_cast (by omega : n % d * 2 < 1 * d)
    rw [add_sub_cancel_left, abs_of_nonneg hrem]
    exact ⟨hhalf.le, fun h => absurd h hhalf.ne⟩
  · have hhalf : (1 / 2 : ℚ) < (n % d : ℕ) / d := by
      rw [div_lt_div_iff₀ two_pos hpos]
      exact_mod_cast (by omega : 1 * d < n % d * 2)
    have hone : ((n % d : ℕ) / d : ℚ) < 1 := by
      rw [div_lt_one hpos]
      exact_mod_cast Nat.mod_lt n hd
    push_cast
    rw [add_sub_add_left_eq_sub, abs_of_neg (by linarith)]
    exact ⟨by linarith, fun h => absurd h (by linarith)⟩
  · have hhalf : ((n % d : ℕ) / d : ℚ) = 1 / 2 := by
      rw [div_eq_div_iff hpos.ne' two_ne_zero]
      exact_mod_cast (by omega : n % d * 2 = 1 * d)
    have heven : Even (n / d + n / d % 2) := by
      rw [Nat.even_iff]
      omega
    refine ⟨?_, fun _ => heven⟩
    push_cast
    rw [add_sub_add_left_eq_sub, hhalf]
    rcases Nat.mod_two_eq_zero_or_one (n / d) with hk | hk <;> rw [hk] <;> norm_num

/-- A whole number within a half is a nearest one. -/
theorem abs_sub_le_of_half {t : ℚ} {s : ℕ} (hclose : |t - s| ≤ 1 / 2)
    (hhalf : |t - s| = 1 / 2 → Even s) (k : ℤ) :
    |t - s| ≤ |t - k| ∧ (|t - s| = |t - k| → k ≠ s → Even s) := by
  rcases eq_or_ne k s with rfl | hne
  · exact ⟨le_rfl, fun _ hne => absurd rfl hne⟩
  · have hgap : (1 : ℚ) ≤ |(k : ℚ) - s| := by
      have hone : 1 ≤ |k - (s : ℤ)| := Int.one_le_abs (sub_ne_zero.mpr hne)
      exact_mod_cast hone
    have htriangle : |(k : ℚ) - s| ≤ |t - k| + |t - s| := by
      rw [abs_sub_comm t k]
      exact abs_sub_le _ _ _
    exact ⟨by linarith, fun heq _ => hhalf (by linarith)⟩

/-! ## Rounding on the grid of doubles -/

/-- Whether the significand and the exponent are those of a number rounded to the doubles around
it. The significand may have a bit too many, if all of its bits are carried over. -/
structure Rounded (q : ℚ) (s : ℕ) (u : ℤ) : Prop where
  least_le : Binary.leastExponent ≤ u
  lt : q < 2 ^ (53 : ℤ) * 2 ^ u
  full : 2 ^ (52 : ℤ) * 2 ^ u ≤ q ∨ u = Binary.leastExponent
  close : |q / 2 ^ u - s| ≤ 1 / 2
  half : |q / 2 ^ u - s| = 1 / 2 → Even s

theorem rounded_unitExponent {n d : ℕ} (hn : 0 < n) (hd : 0 < d) :
    ∃ s, Rounded (n / d) s (unitExponent n d) ∧
      nearestPattern n d =
        min ((unitExponent n d - Binary.leastExponent).toNat * 2 ^ 52 + s) infinitePattern := by
  set u := unitExponent n d with hu
  have hq : (0 : ℚ) < n / d := by positivity
  have hlog := unitExponent_eq hn hd
  have hbounds := (log_eq_iff hq (Int.log 2 (n / d : ℚ))).mp rfl
  obtain ⟨hclose, hhalf⟩ := abs_sub_roundHalfEven (scaleBy 2 u n d).1
    (scaleBy_snd_pos u n d two_ne_zero hd)
  rw [scaleBy_ratio _ _ _ two_ne_zero, Nat.cast_ofNat] at hclose hhalf
  refine ⟨_, ⟨by omega, ?_, ?_, hclose, hhalf⟩, ?_⟩
  · rw [← zpow_add₀ two_ne_zero]
    exact hbounds.2.trans_le (zpow_le_zpow_right₀ one_le_two (by omega))
  · rcases eq_or_ne u Binary.leastExponent with hleast | hne
    · exact .inr hleast
    · rw [← zpow_add₀ two_ne_zero]
      exact .inl ((zpow_le_zpow_right₀ one_le_two (by omega)).trans hbounds.1)
  · rw [nearestPattern, if_neg hn.ne']
    rfl

namespace Rounded

variable {q : ℚ} {s : ℕ} {u : ℤ} (h : Rounded q s u)

include h

theorem quotient_lt : q / 2 ^ u < 2 ^ 53 := by
  rw [div_lt_iff₀ (by positivity)]
  exact_mod_cast h.lt

theorem significand_le : s ≤ 2 ^ 53 := by
  have hclose := abs_le.mp h.close
  have hlt := h.quotient_lt
  have hbound : (s : ℚ) < (2 ^ 53 + 1 : ℕ) := by
    push_cast
    linarith
  exact Nat.lt_succ_iff.mp (by exact_mod_cast hbound)

theorem significand_full : 2 ^ 52 ≤ s ∨ u = Binary.leastExponent := by
  refine h.full.imp_left fun hfull => ?_
  have hclose := abs_le.mp h.close
  have hquotient : (2 : ℚ) ^ 52 ≤ q / 2 ^ u := by
    rw [le_div_iff₀ (by positivity)]
    exact_mod_cast hfull
  have hbound : ((2 ^ 52 : ℕ) : ℚ) < (s + 1 : ℕ) := by
    push_cast
    linarith
  exact Nat.lt_succ_iff.mp (by exact_mod_cast hbound)

/-- The pattern of the rounded number stands for its significand and exponent. -/
theorem ofPattern_eq_finite
    (hbelow : (u - Binary.leastExponent).toNat * 2 ^ 52 + s < infinitePattern) :
    ∃ m e, Binary.ofPattern ((u - Binary.leastExponent).toNat * 2 ^ 52 + s) = .finite false m e ∧
      (m : ℚ) * 2 ^ e = s * 2 ^ u := by
  have hleast := h.least_le
  have hfull := h.significand_full
  have hle := h.significand_le
  rw [infinitePattern] at hbelow
  rw [Binary.leastExponent] at hleast hfull
  rcases Nat.lt_or_eq_of_le hle with hlt | rfl
  · have hcanonical : Canonical s u := ⟨hlt, h.least_le, h.significand_full⟩
    refine ⟨s, u, ofPattern_of_canonical hcanonical ?_, rfl⟩
    rw [Binary.leastExponent] at hbelow
    omega
  · -- All bits are carried over: the next exponent has the same value.
    have hcanonical : Canonical (2 ^ 52) (u + 1) :=
      ⟨by norm_num, by rw [Binary.leastExponent]; omega, .inl le_rfl⟩
    have hsame : (u - Binary.leastExponent).toNat * 2 ^ 52 + 2 ^ 53 =
        (u + 1 - Binary.leastExponent).toNat * 2 ^ 52 + 2 ^ 52 := by
      rw [Binary.leastExponent]
      omega
    refine ⟨2 ^ 52, u + 1, ?_, ?_⟩
    · rw [hsame]
      refine ofPattern_of_canonical hcanonical ?_
      rw [Binary.leastExponent] at hbelow
      omega
    · rw [zpow_add₀ two_ne_zero]
      push_cast
      ring

theorem abs_sub_multiple (k : ℤ) :
    |q - s * 2 ^ u| ≤ |q - k * 2 ^ u| ∧
      (|q - s * 2 ^ u| = |q - k * 2 ^ u| → k ≠ s → Even s) := by
  have hscale (t : ℚ) : |q - t * 2 ^ u| = |q / 2 ^ u - t| * 2 ^ u := by
    rw [← abs_of_pos (by positivity : (0 : ℚ) < 2 ^ u), ← abs_mul,
      abs_of_pos (by positivity : (0 : ℚ) < 2 ^ u), sub_mul, div_mul_cancel₀ _ (by positivity)]
  obtain ⟨hle, heven⟩ := abs_sub_le_of_half h.close h.half k
  rw [hscale s, hscale k]
  exact ⟨by gcongr, fun heq => heven (mul_right_cancel₀ (by positivity) heq)⟩

/-- No double is nearer, and only an even significand has a double as near. -/
theorem abs_sub_le (negative : Bool) {m : ℕ} {e : ℤ} (hcanonical : Canonical m e) :
    |q - s * 2 ^ u| ≤ |q - signedValue negative m e| ∧
      (|q - s * 2 ^ u| = |q - signedValue negative m e| →
        signedValue negative m e ≠ s * 2 ^ u → Even s) := by
  rcases le_or_gt u e with hue | heu
  · -- A double with as great an exponent is one of the multiples.
    obtain ⟨k, hk⟩ : ∃ k : ℤ, signedValue negative m e = k * 2 ^ u := by
      refine ⟨(if negative then -1 else 1) * (m * 2 ^ (e - u).toNat), ?_⟩
      have hsplit : (2 : ℚ) ^ e = 2 ^ (e - u).toNat * 2 ^ u := by
        rw [← zpow_natCast, ← zpow_add₀ two_ne_zero]
        congr 1
        omega
      rw [signedValue, hsplit]
      push_cast
      split_ifs <;> ring
    obtain ⟨hle, heven⟩ := h.abs_sub_multiple k
    rw [hk]
    refine ⟨hle, fun heq hne => heven heq ?_⟩
    rintro rfl
    exact hne (by push_cast; rfl)
  · -- A smaller double lies below the least multiple with a full significand.
    have hleast := hcanonical.least_le
    have hfull := h.full.resolve_right (by omega)
    have hm : (m : ℚ) < 2 ^ (53 : ℤ) := by exact_mod_cast hcanonical.lt
    have hbelow : signedValue negative m e < 2 ^ (52 : ℤ) * 2 ^ u := by
      calc signedValue negative m e ≤ m * 2 ^ e := by
            have hpos : (0 : ℚ) ≤ m * 2 ^ e := by positivity
            rw [signedValue]
            split_ifs <;> linarith
        _ < 2 ^ (53 : ℤ) * 2 ^ e := by gcongr
        _ = 2 ^ (53 + e) := (zpow_add₀ two_ne_zero _ _).symm
        _ ≤ 2 ^ (52 + u) := zpow_le_zpow_right₀ one_le_two (by omega)
        _ = 2 ^ (52 : ℤ) * 2 ^ u := zpow_add₀ two_ne_zero _ _
    have hnear := (h.abs_sub_multiple (2 ^ 52)).1
    rw [Int.cast_pow, Int.cast_ofNat, ← zpow_ofNat, abs_of_nonneg (sub_nonneg.mpr hfull)] at hnear
    rw [abs_of_pos (a := q - signedValue negative m e) (by linarith)]
    exact ⟨by linarith, fun heq => absurd heq (by linarith)⟩

end Rounded

/-! ## The end of the range -/

/-- The least number that is rounded to infinity. It is halfway between the greatest double and
the power of two above it. -/
def roundedToInfinity : ℚ := 2 ^ 1024 - 2 ^ 970

theorem roundedToInfinity_eq : roundedToInfinity = (2 ^ 53 - 1 / 2) * 2 ^ (971 : ℤ) := by
  have hbits : (2 : ℚ) ^ 1024 = 2 ^ 54 * 2 ^ 970 := by rw [← pow_add]
  have hunit : (2 : ℚ) ^ (971 : ℤ) = 2 * 2 ^ 970 := by
    rw [← pow_succ']
    exact zpow_natCast 2 971
  rw [roundedToInfinity, hbits, hunit]
  generalize (2 : ℚ) ^ 970 = halfUnit
  ring

theorem roundedToInfinity_bounds :
    2 ^ (52 : ℤ) * 2 ^ (971 : ℤ) < roundedToInfinity ∧
      roundedToInfinity < 2 ^ (53 : ℤ) * 2 ^ (971 : ℤ) := by
  rw [roundedToInfinity_eq]
  constructor <;> gcongr <;> norm_num

namespace Rounded

variable {q : ℚ} {s : ℕ} {u : ℤ} (h : Rounded q s u)

include h

theorem pattern_lt (hlt : q < roundedToInfinity) :
    (u - Binary.leastExponent).toNat * 2 ^ 52 + s < infinitePattern := by
  have hle := h.significand_le
  rw [infinitePattern, Binary.leastExponent]
  rcases lt_trichotomy u 971 with hu | rfl | hu
  · omega
  · have hclose := abs_le.mp h.close
    have hquotient : q / 2 ^ (971 : ℤ) < 2 ^ 53 - 1 / 2 := by
      rwa [div_lt_iff₀ (by positivity), ← roundedToInfinity_eq]
    have hbound : (s : ℚ) < (2 ^ 53 : ℕ) := by
      push_cast
      linarith
    have hs : s < 2 ^ 53 := by exact_mod_cast hbound
    omega
  · have hfull := h.full.resolve_right (by rw [Binary.leastExponent]; omega)
    have hpower : (2 : ℚ) ^ (53 : ℤ) * 2 ^ (971 : ℤ) ≤ 2 ^ (52 : ℤ) * 2 ^ u := by
      rw [← zpow_add₀ two_ne_zero, ← zpow_add₀ two_ne_zero]
      exact zpow_le_zpow_right₀ one_le_two (by omega)
    exact absurd (hlt.trans roundedToInfinity_bounds.2) (not_lt.mpr (hpower.trans hfull))

/-- From half a unit below the next power of two on, all bits are carried over: the greatest
significand is odd. -/
theorem carried (hquotient : (2 : ℚ) ^ 53 - 1 / 2 ≤ q / 2 ^ u) : 2 ^ 53 ≤ s := by
  by_contra hlt
  have hclose := abs_le.mp h.close
  have hleast : ((2 ^ 53 : ℕ) : ℚ) ≤ (s + 1 : ℕ) := by
    push_cast
    linarith
  have hmost : ((s + 1 : ℕ) : ℚ) ≤ (2 ^ 53 : ℕ) := by exact_mod_cast not_le.mp hlt
  have hodd : s + 1 = 2 ^ 53 := by exact_mod_cast le_antisymm hmost hleast
  have heven : Even s := by
    apply h.half
    push_cast at hmost
    rw [abs_of_nonneg (by linarith)]
    linarith
  exact absurd heven (by rw [Nat.even_iff]; omega)

theorem le_pattern (hle : roundedToInfinity ≤ q) :
    infinitePattern ≤ (u - Binary.leastExponent).toNat * 2 ^ 52 + s := by
  rw [infinitePattern, Binary.leastExponent]
  rcases lt_trichotomy u 971 with hu | rfl | hu
  · have hpower : (2 : ℚ) ^ (53 : ℤ) * 2 ^ u ≤ 2 ^ (52 : ℤ) * 2 ^ (971 : ℤ) := by
      rw [← zpow_add₀ two_ne_zero, ← zpow_add₀ two_ne_zero]
      exact zpow_le_zpow_right₀ one_le_two (by omega)
    have hbelow := hpower.trans roundedToInfinity_bounds.1.le
    exact absurd h.lt (not_lt.mpr (hbelow.trans hle))
  · have hquotient : (2 : ℚ) ^ 53 - 1 / 2 ≤ q / 2 ^ (971 : ℤ) := by
      rwa [le_div_iff₀ (by positivity), ← roundedToInfinity_eq]
    have hcarried := h.carried hquotient
    omega
  · have hfull := h.significand_full.resolve_right (by rw [Binary.leastExponent]; omega)
    omega

end Rounded

/-! ## The nearest double -/

/-- Whether a double is nearest to a number among the finite ones. Where another one is as near,
the last bit of its pattern is zero. -/
def IsNearest (q : ℚ) (x : Float) : Prop :=
  ∃ v, IsExactly x v ∧ ∀ y w, IsExactly y w →
    |q - v| ≤ |q - w| ∧ (|q - v| = |q - w| → w ≠ v → Even x.toBits.toNat)

theorem isNearest_nearest {n d : ℕ} (hd : 0 < d) (hlt : (n / d : ℚ) < roundedToInfinity) :
    IsNearest (n / d) (nearest n d) := by
  have hpattern := toNat_toBits_nearest n d
  rcases Nat.eq_zero_or_pos n with rfl | hn
  · have hzero : (nearest 0 d).toBits.toNat = 0 := hpattern
    refine ⟨0, ?_, fun y w _ => ?_⟩
    · rw [IsExactly, Binary.ofFloat, hzero]
      simp [Binary.ofPattern, Binary.specialField, Binary.value?]
    · rw [hzero]
      simp
  · obtain ⟨s, hrounded, hmin⟩ := rounded_unitExponent hn hd
    have hbelow := hrounded.pattern_lt hlt
    rw [hmin, min_eq_left hbelow.le] at hpattern
    obtain ⟨m, e, hfinite, hvalue⟩ := hrounded.ofPattern_eq_finite hbelow
    refine ⟨s * 2 ^ unitExponent n d, ?_, fun y w hy => ?_⟩
    · rw [IsExactly, Binary.ofFloat, hpattern, hfinite, ← hvalue]
      simp [Binary.value?]
    · obtain ⟨negative, m', e', hbinary, rfl⟩ := hy.exists_finite
      obtain ⟨hle, heven⟩ := hrounded.abs_sub_le negative (canonical_of_ofFloat hbinary).1
      refine ⟨hle, fun heq hne => ?_⟩
      rw [hpattern]
      exact ((even_two.pow_of_ne_zero (by norm_num)).mul_left _).add (heven heq hne)

theorem nearest_eq_infinity {n d : ℕ} (hd : 0 < d) (hle : roundedToInfinity ≤ (n / d : ℚ)) :
    nearest n d = infinity := by
  have hn : 0 < n := by
    rw [Nat.pos_iff_ne_zero]
    rintro rfl
    rw [Nat.cast_zero, zero_div] at hle
    have hpos : (0 : ℚ) < 2 ^ (52 : ℤ) * 2 ^ (971 : ℤ) := by positivity
    exact absurd (hpos.trans roundedToInfinity_bounds.1) (not_lt.mpr hle)
  obtain ⟨s, hrounded, hmin⟩ := rounded_unitExponent hn hd
  rw [nearest, hmin, min_eq_right (hrounded.le_pattern hle)]
  rfl

/-- Of two numbers the greater is not rounded to the smaller double. -/
theorem IsNearest.le_of_lt {q q' : ℚ} {x x' : Float} (h : IsNearest q x) (h' : IsNearest q' x')
    (hlt : q < q') : x ≤ x' := by
  obtain ⟨v, hv, hnear⟩ := h
  obtain ⟨v', hv', hnear'⟩ := h'
  rw [hv.le_iff hv']
  by_contra hgt
  have hle := (hnear x' v' hv').1
  have hle' := (hnear' x v hv).1
  rw [← sq_le_sq] at hle hle'
  nlinarith

theorem exists_isExactly_nearest (n : ℕ) {d : ℕ} (hd : 0 < d) :
    (∃ q, IsExactly (nearest n d) q) ∨ nearest n d = infinity := by
  rcases lt_or_ge (n / d : ℚ) roundedToInfinity with hlt | hge
  · obtain ⟨v, hv, -⟩ := isNearest_nearest hd hlt
    exact .inl ⟨v, hv⟩
  · exact .inr (nearest_eq_infinity hd hge)

/-- Rounding keeps the order. -/
theorem nearest_le_nearest {n d n' d' : ℕ} (hd : 0 < d) (hd' : 0 < d')
    (h : (n / d : ℚ) ≤ n' / d') : nearest n d ≤ nearest n' d' := by
  rcases lt_or_ge (n' / d' : ℚ) roundedToInfinity with hlt' | hge'
  · have hnear := isNearest_nearest hd (h.trans_lt hlt')
    rcases h.lt_or_eq with hlt | heq
    · exact hnear.le_of_lt (isNearest_nearest hd' hlt') hlt
    · obtain ⟨v, hv, -⟩ := hnear
      have hsame : nearest n' d' = nearest n d := by
        rw [nearest, nearest, nearestPattern_congr hd' hd heq.symm]
      rw [hsame, hv.le_iff hv]
  · rw [nearest_eq_infinity hd' hge']
    exact le_infinity (exists_isExactly_nearest n hd)

end Reckoner.Number
