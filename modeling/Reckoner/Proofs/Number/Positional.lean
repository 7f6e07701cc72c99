import Reckoner.Proofs.Json.Layout
import Reckoner.Proofs.Number.Nearest
import Reckoner.Proofs.Tree.Records

/-!
# Numbers that are shown as literals

Literals have no sign and no exponent. The text of a double from one ten-thousandth up to, but
without, ten to the sixteenth has neither, since the place of the point is that of the double's
shortest decimal, and rounding keeps the order: a decimal on the other side of a bound would be
read as the double at the bound or beyond. Such a text is therefore a literal, and stands for the
double again.
-/

namespace Reckoner

open Text (decimalValue?)

/-! ## Runs of digits as literals -/

theorem decimalValue?_of_isDigit {c : Char} (h : c.isDigit = true) :
    decimalValue? c = some (c.toNat - '0'.toNat) := by
  have hbounds : 48 ≤ c.toNat ∧ c.toNat ≤ 57 := by
    simpa [Char.isDigit, UInt32.le_iff_toNat_le] using h
  have hfirst : Text.decimalRanges.find? c.toNat = some (0x30, 0x39) := by
    simp [Text.decimalRanges, Text.Ranges.find?, Text.Ranges.holds, hbounds]
  have hzero : '0'.toNat = 48 := rfl
  rw [decimalValue?, hfirst, Option.map_some, hzero, Option.some_inj]
  omega

theorem digits_of_isDigit {ds : List Char} (h : ∀ c ∈ ds, c.isDigit = true) :
    Digits ds (ds.map fun c => c.toNat - '0'.toNat) := by
  rw [Digits, List.forall₂_map_right_iff, List.forall₂_same]
  exact fun c hc => decimalValue?_of_isDigit (h c hc)

theorem ofDigits_map_toNat (ds : List Char) :
    Number.ofDigits (ds.map fun c => c.toNat - '0'.toNat) = Json.natural ds := by
  rw [Number.ofDigits, List.foldl_map]
  rfl

namespace Number

theorem Decimal.double_eq_nearest {d : Decimal} {n m : ℕ} (hm : 0 < m)
    (h : (n / m : ℚ) = d.value) : d.double = nearest n m := by
  rw [double, pattern_eq_nearestPattern hm h]
  rfl

end Number

/-- A number in JSON without a sign and an exponent is a literal. -/
theorem Json.Numeral.isNumeral {m : Json.Numeral} (hsign : m.negative = false)
    (hexponent : m.exponent = none) : Reckoner.Numeral m.text m.decimal.double := by
  obtain ⟨c, cs, hwhole, -⟩ := m.exists_whole
  have hne : m.whole ≠ [] := hwhole ▸ List.cons_ne_nil c cs
  have hdigits := digits_of_isDigit m.whole_isDigit
  have hvalue : m.decimal.value = natural (m.whole ++ m.fraction) / 10 ^ m.fraction.length := by
    simp [Number.Decimal.value, decimal, hexponent, zpow_neg, div_eq_mul_inv]
  by_cases hfraction : m.fraction = []
  · have htext : m.text = m.whole := by
      simp [text, hsign, Number.signed, fractionText, exponentText, hfraction, hexponent]
    have hnumeral := Reckoner.Numeral.whole hne hdigits
    rw [ofDigits_map_toNat] at hnumeral
    rw [htext, Number.Decimal.double_eq_nearest (n := natural m.whole) one_pos]
    · exact hnumeral
    · simp [hvalue, hfraction]
  · have htext : m.text = m.whole ++ '.' :: m.fraction := by
      simp [text, hsign, Number.signed, fractionText, exponentText, hfraction, hexponent]
    have hnumeral := Reckoner.Numeral.point hne hfraction hdigits
      (digits_of_isDigit m.fraction_isDigit)
    rw [← List.map_append, ofDigits_map_toNat, List.length_map] at hnumeral
    rw [htext, Number.Decimal.double_eq_nearest (n := natural (m.whole ++ m.fraction))
      (m := 10 ^ m.fraction.length) (by positivity)]
    · exact hnumeral
    · rw [hvalue]
      push_cast
      rfl

/-! ## Texts without an exponent -/

theorem Json.Numeral.exponent_eq_none {m : Json.Numeral}
    (h : ∀ c ∈ m.text, c ≠ 'e' ∧ c ≠ 'E') : m.exponent = none := by
  cases hexponent : m.exponent with
  | none => rfl
  | some e =>
      have hmem : e.letter ∈ m.text := by
        rw [text, Number.signed, exponentText, hexponent]
        split <;> simp [Exponent.text]
      rcases e.letter_eq with hletter | hletter
      · exact absurd hletter (h _ hmem).1
      · exact absurd hletter (h _ hmem).2

namespace Number

theorem mem_positional {digits : List Char} {point : ℤ} {c : Char}
    (h : c ∈ Layout.positional digits point) : c ∈ digits ∨ c = '0' ∨ c = '.' := by
  rw [Layout.positional] at h
  split_ifs at h
  · simp only [zeros, List.cons_append, List.mem_cons, List.mem_append, List.mem_replicate] at h
    tauto
  · simp only [zeros, List.mem_cons, List.mem_append, List.mem_replicate, List.not_mem_nil] at h
    tauto
  · rcases List.mem_append.mp h with h | h
    · exact .inl (List.mem_of_mem_take h)
    · rcases List.mem_cons.mp h with rfl | h
      · exact .inr (.inr rfl)
      · exact .inl (List.mem_of_mem_drop h)

/-- A positive decimal that is laid out without an exponent is a literal. -/
theorem numeral_positional {d : Decimal} (h : 0 < d.digits) :
    Numeral (Layout.positional (dropEndZeros (digitsOf d.digits))
      ((digitsOf d.digits).length + d.exponent)) d.double := by
  obtain ⟨hstart, hdigits, hvalue⟩ := Json.significant_digits h
  set point : ℤ := (digitsOf d.digits).length + d.exponent
  obtain ⟨m, hlays⟩ : ∃ m : Json.Numeral, m.Lays (Layout.positional _ point) _ :=
    Json.exists_positional hstart hdigits
  have hexponent : m.exponent = none := by
    apply Json.Numeral.exponent_eq_none
    rw [hlays.text_eq]
    intro c hc
    rcases mem_positional hc with hc | rfl | rfl
    · have hdigit := hdigits c hc
      constructor <;> rintro rfl <;> cases hdigit
    · decide
    · decide
  have hnumeral := Json.Numeral.isNumeral hlays.negative_eq hexponent
  have hdouble : m.decimal.double = d.double := by
    rw [Decimal.double, Decimal.double, Decimal.pattern_congr (hlays.value_eq.trans hvalue.symm)]
  rwa [hlays.text_eq, hdouble] at hnumeral

/-! ## The place of the point -/

theorem decimal_bounds {d : Decimal} (h : 0 < d.digits) :
    (10 : ℚ) ^ ((digitsOf d.digits).length + d.exponent - 1) ≤ d.value ∧
      d.value < 10 ^ ((digitsOf d.digits).length + d.exponent) := by
  have hlength : 0 < (digitsOf d.digits).length := Nat.length_toDigits_pos
  have hupper : d.digits < 10 ^ (digitsOf d.digits).length :=
    (Nat.length_toDigits_le_iff (by norm_num) hlength).mp le_rfl
  have hlower : 10 ^ ((digitsOf d.digits).length - 1) ≤ d.digits := by
    rcases Nat.eq_zero_or_pos ((digitsOf d.digits).length - 1) with hone | hmore
    · rw [hone]
      exact h
    · rw [← not_lt, ← Nat.length_toDigits_le_iff (by norm_num) hmore]
      change ¬ (digitsOf d.digits).length ≤ _
      omega
  generalize (digitsOf d.digits).length = length at *
  have hsplit : (length : ℤ) + d.exponent - 1 = (length - 1 : ℕ) + d.exponent := by omega
  rw [hsplit, zpow_add₀ (by norm_num), zpow_add₀ (by norm_num), zpow_natCast, zpow_natCast,
    Decimal.value]
  constructor
  · gcongr
    exact_mod_cast hlower
  · gcongr
    exact_mod_cast hupper

theorem isExactly_nearest_ten_pow : IsExactly (nearest (10 ^ 16) 1) (10 ^ 16) :=
  .of_finite false (5 * 10 ^ 15) 1 (by decide +kernel) (by norm_num)

theorem ofFloat_nearest_tenThousandth :
    Binary.ofFloat (nearest 1 (10 ^ 4)) = .finite false 7378697629483821 (-66) := by
  decide +kernel

section Bounds

variable {x : Float} {q : ℚ} {d : Decimal} (hx : IsExactly x q) (hdouble : d.double = x)
  (h : 0 < d.digits)

include hx hdouble h

theorem point_le_of_lt (hlt : q < 10 ^ 16) : (digitsOf d.digits).length + d.exponent ≤ 16 := by
  by_contra hgt
  have hvalue : (10 : ℚ) ^ (16 : ℤ) ≤ d.value :=
    (zpow_le_zpow_right₀ (by norm_num) (by omega)).trans (decimal_bounds h).1
  have hle : nearest (10 ^ 16) 1 ≤ d.double := by
    refine nearest_le_nearest one_pos (Nat.pow_pos (by norm_num)) ?_
    rw [powers_ratio, Nat.cast_one, div_one]
    exact_mod_cast hvalue
  rw [hdouble, isExactly_nearest_ten_pow.le_iff hx] at hle
  exact absurd hlt (not_lt.mpr hle)

/-- A double that is not below one ten-thousandth, although its decimal is, is the nearest double
to it. -/
theorem eq_nearest_of_point_lt (hle : 1 / 10 ^ 4 ≤ q)
    (hpoint : (digitsOf d.digits).length + d.exponent < -3) : x = nearest 1 (10 ^ 4) := by
  have hvalue : d.value ≤ (10 : ℚ) ^ (-4 : ℤ) :=
    (decimal_bounds h).2.le.trans (zpow_le_zpow_right₀ (by norm_num) (by omega))
  have hbelow : d.double ≤ nearest 1 (10 ^ 4) := by
    refine nearest_le_nearest (Nat.pow_pos (by norm_num)) (by norm_num) ?_
    rw [powers_ratio]
    refine hvalue.trans (le_of_eq ?_)
    norm_num
  have hsmall : ((1 : ℕ) / (10 ^ 4 : ℕ) : ℚ) < roundedToInfinity := by
    refine lt_trans ?_ roundedToInfinity_bounds.1
    rw [← zpow_add₀ two_ne_zero]
    exact lt_of_lt_of_le (by norm_num) (one_le_zpow₀ one_le_two (by norm_num))
  obtain ⟨v, hv, hnear⟩ := isNearest_nearest (by norm_num) hsmall
  rw [hdouble, hx.le_iff hv] at hbelow
  have habs := (hnear x q hx).1
  have hq : ((1 : ℕ) / (10 ^ 4 : ℕ) : ℚ) ≤ q := by exact_mod_cast hle
  rw [abs_of_nonpos (by linarith), abs_of_nonpos (by linarith)] at habs
  obtain rfl : q = v := by linarith
  have hpos : (0 : ℚ) < 1 / 10 ^ 4 := by norm_num
  exact hx.eq_of_ne_zero hv (by linarith)

end Bounds

theorem leastPoint_le_shortest {x : Float} {q : ℚ} {significand : ℕ} {exponent : ℤ}
    (hfinite : Binary.ofFloat x = .finite false significand exponent) (hx : IsExactly x q)
    (hdouble : (Decimal.shortest significand exponent).double = x)
    (h : 0 < (Decimal.shortest significand exponent).digits) (hle : 1 / 10 ^ 4 ≤ q) :
    -3 ≤ (digitsOf (Decimal.shortest significand exponent).digits).length +
      (Decimal.shortest significand exponent).exponent := by
  by_contra hlt
  have hnearest := eq_nearest_of_point_lt hx hdouble h hle (not_le.mp hlt)
  rw [hnearest, ofFloat_nearest_tenThousandth] at hfinite
  obtain ⟨-, rfl, rfl⟩ := Binary.finite.inj hfinite
  have hshortest : Decimal.shortest 7378697629483821 (-66) = ⟨1, -4⟩ := by decide +kernel
  rw [hshortest] at hlt
  exact hlt (by decide)

/-! ## Reading back -/

theorem isLiteral_of_finite {x : Float} {significand : ℕ} {exponent : ℤ}
    (h : Binary.ofFloat x = .finite false significand exponent) : IsLiteral x := by
  have hlt := x.toBits.toNat_lt
  rw [Binary.ofFloat, ofPattern_eq] at h
  rw [IsLiteral, infinitePattern]
  split_ifs at h with hspecial hzero hsubnormal
  all_goals
    have hsign := (Binary.finite.inj h).1
    rw [decide_eq_false_iff_not] at hsign
    omega

theorem IsExactly.exists_positive {x : Float} {q : ℚ} (h : IsExactly x q) (hq : 0 < q) :
    ∃ m e, Binary.ofFloat x = .finite false m e ∧ m ≠ 0 := by
  obtain ⟨negative, m, e, hfinite, rfl⟩ := h.exists_finite
  have hm : 0 < m := by
    rw [Nat.pos_iff_ne_zero]
    rintro rfl
    simp [signedValue] at hq
  obtain rfl := (signedValue_neg_iff negative e hm).2.mp hq
  exact ⟨m, e, hfinite, hm.ne'⟩

namespace IsLiteral

variable {x : Float} (hx : IsLiteral x)

include hx

theorem exists_value {q : ℚ} (h : IsExactly x q) :
    ∃ m e, Binary.ofFloat x = .finite false m e ∧ q = m * 2 ^ e := by
  rcases ofPattern_cases hx with ⟨hinfinite, -⟩ | ⟨m, e, hfinite⟩
  · obtain ⟨negative, m, e, hfinite, -⟩ := h.exists_finite
    exact absurd (hinfinite.symm.trans hfinite) nofun
  · exact ⟨m, e, hfinite, h.unique (.of_positive hfinite)⟩

/-- The exact value of a literal is rounded to the literal. -/
theorem nearest_eq {n d : ℕ} (hd : 0 < d) (h : IsExactly x (n / d)) : nearest n d = x := by
  obtain ⟨m, e, hfinite, hvalue⟩ := hx.exists_value h
  have hratio : (n / d : ℚ) = (m * Nat.pow 2 e.toNat : ℕ) / (Nat.pow 2 (-e).toNat : ℕ) := by
    rw [powers_ratio, hvalue]
    norm_num
  have hpos : 0 < Nat.pow 2 (-e).toNat := Nat.pow_pos two_pos
  rw [nearest, nearestPattern_congr hd hpos hratio, nearestPattern_ofPattern hx hfinite,
    UInt64.ofNat_toNat, ofBits_toBits]

end IsLiteral

theorem numeral_fullText {x : Float} {q : ℚ} (hx : IsExactly x q) (hle : 1 / 10 ^ 4 ≤ q)
    (hlt : q < 10 ^ 16) : Numeral (fullText x).toList x := by
  have hpos : 0 < q := lt_of_lt_of_le (by norm_num) hle
  obtain ⟨m, e, hfinite, hm⟩ := hx.exists_positive hpos
  have hliteral := isLiteral_of_finite hfinite
  have hdouble := Json.double_shortest hliteral hfinite
  have hdigits := Json.digits_shortest_pos hliteral hfinite hm
  have hleast := leastPoint_le_shortest hfinite hx hdouble hdigits hle
  have hgreatest := point_le_of_lt hx hdouble hdigits hlt
  have hnumeral := numeral_positional hdigits
  rw [hdouble] at hnumeral
  rw [fullText, hfinite, String.toList_ofList, Binary.fullText, signed, if_neg Bool.false_ne_true,
    if_neg hm, Layout.write, if_pos ⟨hleast, hgreatest⟩]
  exact hnumeral

theorem numeral_digitsOf {x : Float} {n : ℕ} (hx : IsLiteral x) (h : IsExactly x n) :
    Numeral (digitsOf n) x := by
  have hne : digitsOf n ≠ [] := Nat.toDigits_ne_nil
  have hnumeral := Numeral.whole hne (digits_of_isDigit Json.isDigit_digitsOf)
  have hvalue : Json.natural (digitsOf n) = n := Nat.ofDigitChars_ten_toDigits
  rwa [ofDigits_map_toNat, hvalue, hx.nearest_eq one_pos (by simpa using h)] at hnumeral

/-- A literal is shown by its digits, if it is whole, or by its full text. -/
theorem plainText_cases {x : Float} (hx : IsLiteral x) :
    (∃ n : ℕ, IsExactly x n ∧ (plainText x).toList = digitsOf n) ∨ plainText x = fullText x := by
  cases hwhole : (Binary.ofFloat x).whole? with
  | none =>
      right
      rw [plainText, Binary.plainText, hwhole]
      rfl
  | some n =>
      rcases Nat.lt_or_ge n.natAbs plainLimit with hsmall | hlarge
      · left
        have hvalue : IsExactly x n := (Binary.whole?_eq_some_iff _ _).mp hwhole
        have hsign : 0 ≤ n := by
          obtain ⟨m, e, -, hmagnitude⟩ := hx.exists_value hvalue
          have hpos : (0 : ℚ) ≤ n := by
            rw [hmagnitude]
            positivity
          exact_mod_cast hpos
        obtain ⟨k, rfl⟩ := Int.eq_ofNat_of_zero_le hsign
        refine ⟨k, by exact_mod_cast hvalue, ?_⟩
        rw [plainText_of_value? (by exact_mod_cast hvalue) hsmall]
        exact Nat.toList_repr
      · right
        rw [plainText, Binary.plainText, hwhole]
        simp only [if_neg (not_lt.mpr hlarge)]
        rfl

/-- The text of zero or of a double in the range without exponents is a literal for the double. -/
theorem numeral_plainText {x : Float}
    (h : x = 0 ∨ ∃ q, IsExactly x q ∧ 1 / 10 ^ 4 ≤ q ∧ q < 10 ^ 16) :
    Numeral (plainText x).toList x := by
  rcases h with rfl | ⟨q, hx, hle, hlt⟩
  · have hfinite : Binary.ofFloat 0 = .finite false 0 (-1074) := by decide
    have hzero : IsExactly 0 (0 : ℕ) := .of_finite false 0 (-1074) hfinite (by norm_num)
    have hnumeral := numeral_digitsOf (isLiteral_of_finite hfinite) hzero
    have htext : (toString 0).toList = digitsOf 0 := Nat.toList_repr
    rwa [plainText_of_value? hzero (by decide), htext]
  · obtain ⟨m, e, hfinite, -⟩ := hx.exists_positive (lt_of_lt_of_le (by norm_num) hle)
    have hliteral := isLiteral_of_finite hfinite
    rcases plainText_cases hliteral with ⟨n, hn, htext⟩ | htext
    · rw [htext]
      exact numeral_digitsOf hliteral hn
    · rw [htext]
      exact numeral_fullText hx hle hlt

end Number

end Reckoner
