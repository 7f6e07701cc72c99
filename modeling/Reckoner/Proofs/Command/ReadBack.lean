import Reckoner.Proofs.Command.Listing
import Reckoner.Proofs.Command.WholeNumbers
import Reckoner.Proofs.Number.Positional

/-!
# Printed values read back

What `print` shows of a value is a number of the language, if the value is zero or lies in the range
without exponents, and a program that prints that number prints the same value. Outside the range
the text need not be a number, but it still tells the value: only the two zeros, which are equal,
share a text.
-/

namespace Reckoner

namespace Number

/-! ## Texts of doubles that are not negative -/

section Literal

variable {x y : Float}

/-- Literals with the same text are the same. -/
theorem plainText_inj (hx : IsLiteral x) (hy : IsLiteral y) (h : plainText x = plainText y) :
    x = y := by
  have hdigits (n : ℕ) : Json.Numeral.Reads (digitsOf n) (.inl n) := Json.reads_digitsOf false n
  have hapart {z : Float} {n : ℕ} (hz : IsLiteral z) (hn : digitsOf n = (fullText z).toList) :
      False := by
    have hreads := hdigits n
    rw [hn] at hreads
    rcases hz.fullText_cases with hreads' | ⟨-, htext⟩
    · exact absurd (hreads.unique hreads') nofun
    · rw [htext] at hreads
      exact not_reads_inf _ hreads
  rcases plainText_cases hx with ⟨n, hn, htext⟩ | htext <;>
    rcases plainText_cases hy with ⟨m, hm, htext'⟩ | htext'
  · have hreads := hdigits n
    rw [← htext, h, htext'] at hreads
    obtain rfl : n = m := by exact_mod_cast Sum.inl.inj (hreads.unique (hdigits m))
    rw [← hx.nearest_eq (n := n) one_pos (by simpa using hn),
      hy.nearest_eq (n := n) one_pos (by simpa using hm)]
  · exact (hapart hy (by rw [← htext, h, htext'])).elim
  · exact (hapart hx (by rw [← htext', ← h, htext])).elim
  · exact hx.fullText_inj hy (by rw [← htext, h, htext'])

theorem minus_notMem_head_of_isDigit {cs : List Char} (h : ∀ c ∈ cs, c.isDigit = true) :
    '-' ∉ cs.head? := by
  intro hc
  cases h '-' (List.mem_of_mem_head? hc)

theorem minus_notMem_head_fullText (hx : IsLiteral x) : '-' ∉ (fullText x).toList.head? := by
  rcases ofPattern_cases hx with ⟨hinfinite, -⟩ | ⟨significand, exponent, hfinite⟩
  · rw [fullText, Binary.ofFloat, hinfinite]
    decide
  · rw [fullText, Binary.ofFloat, hfinite, String.toList_ofList, Binary.fullText, signed,
      if_neg Bool.false_ne_true]
    split_ifs with hzero
    · decide
    · obtain ⟨m, hlays⟩ := Json.exists_numeral_write Layout.standard
        (Json.digits_shortest_pos hx hfinite hzero)
      rw [← hlays.text_eq, Json.Numeral.text, hlays.negative_eq]
      exact m.minus_notMem_head _

theorem minus_notMem_head_plainText (hx : IsLiteral x) : '-' ∉ (plainText x).toList.head? := by
  rcases plainText_cases hx with ⟨n, -, htext⟩ | htext
  · rw [htext]
    exact minus_notMem_head_of_isDigit Json.isDigit_digitsOf
  · rw [htext]
    exact minus_notMem_head_fullText hx

end Literal

/-! ## Texts of negative doubles -/

/-- What a double of the same magnitude and of the given sign stands for. -/
def Binary.withSign (negative : Bool) : Binary → Binary
  | .nan => .nan
  | .infinite _ => .infinite negative
  | .finite _ significand exponent => .finite negative significand exponent

theorem plainText_negative {significand : ℕ} (hne : significand ≠ 0) (exponent : ℤ) :
    (Binary.finite true significand exponent).plainText =
      '-' :: (Binary.finite false significand exponent).plainText := by
  simp only [Binary.plainText, Binary.whole?]
  by_cases hdivides : significand % Nat.pow 2 (-exponent).toNat = 0
  · have hpos : 0 < significand / Nat.pow 2 (-exponent).toNat * Nat.pow 2 exponent.toNat := by
      refine Nat.mul_pos (Nat.div_pos ?_ (Nat.pow_pos two_pos)) (Nat.pow_pos two_pos)
      exact Nat.le_of_dvd (Nat.pos_of_ne_zero hne) (Nat.dvd_of_mod_eq_zero hdivides)
    simp only [if_pos hdivides, if_true, if_false, Bool.false_eq_true, Int.natAbs_neg,
      Int.natAbs_natCast]
    generalize significand / Nat.pow 2 (-exponent).toNat * Nat.pow 2 exponent.toNat = k at hpos
    have hbelow : decide (-(k : ℤ) < 0) = true := by
      rw [decide_eq_true_iff]
      omega
    have habove : decide ((k : ℤ) < 0) = false := by
      rw [decide_eq_false_iff_not]
      omega
    rw [hbelow, habove]
    split_ifs <;> rfl
  · simp only [if_neg hdivides]
    rfl

theorem exists_literal {significand : ℕ} {exponent : ℤ} (h : Canonical significand exponent)
    (hle : exponent ≤ 971) :
    ∃ u, IsLiteral u ∧ Binary.ofFloat u = .finite false significand exponent := by
  let pattern := (exponent - Binary.leastExponent).toNat * 2 ^ 52 + significand
  have hbelow : pattern ≤ infinitePattern := by
    have hlt := h.lt
    simp only [pattern, infinitePattern, Binary.leastExponent]
    omega
  have hpattern : (UInt64.ofNat pattern).toNat = pattern :=
    UInt64.toNat_ofNat_of_lt' (hbelow.trans_lt (by decide))
  have hbits : (Float.ofBits (UInt64.ofNat pattern)).toBits.toNat = pattern := by
    rw [toBits_ofBits (by rwa [hpattern]), hpattern]
  refine ⟨Float.ofBits (UInt64.ofNat pattern), ?_, ?_⟩
  · rwa [IsLiteral, hbits]
  · rw [Binary.ofFloat, hbits, ofPattern_of_canonical h hle]

theorem ofFloat_ne_nan {x : Float} (h : x.isNaN = false) : Binary.ofFloat x ≠ .nan := by
  intro hnan
  have hunpack : x.isNaN = (Binary.ofFloat x).unpacked.isNaN := by
    rw [← unpack_eq]
    rfl
  rw [hunpack, hnan] at h
  cases h

theorem plainText_of_zero {x : Float} (h : IsExactly x 0) : plainText x = "0" :=
  plainText_of_value? (n := 0) (by exact_mod_cast h) (by decide)

/-- A text is that of a literal, with a minus sign in front of it for a negative double. -/
theorem exists_signed_plainText {x : Float} (h : x.isNaN = false) (hne : ¬ IsExactly x 0) :
    ∃ u negative, IsLiteral u ∧ ¬ IsExactly u 0 ∧
      Binary.ofFloat x = (Binary.ofFloat u).withSign negative ∧
      (plainText x).toList = signed negative (plainText u).toList := by
  cases hbinary : Binary.ofFloat x with
  | nan => exact absurd hbinary (ofFloat_ne_nan h)
  | infinite negative =>
      have hliteral : IsLiteral infinity := by
        rw [IsLiteral, infinity, toBits_ofBits (by decide)]
        decide
      refine ⟨infinity, negative, hliteral, ?_, ?_, ?_⟩
      · simp [IsExactly, ofFloat_infinity, Binary.value?]
      · rw [ofFloat_infinity]
        rfl
      · rw [plainText, plainText, hbinary, ofFloat_infinity, String.toList_ofList,
          String.toList_ofList]
        rfl
  | finite negative significand exponent =>
      obtain ⟨hcanonical, hle⟩ := canonical_of_ofFloat hbinary
      obtain ⟨u, hliteral, hu⟩ := exists_literal hcanonical hle
      have hsignificand : significand ≠ 0 := by
        rintro rfl
        exact hne (.of_finite negative 0 exponent hbinary (by simp))
      refine ⟨u, negative, hliteral, fun hzero => ?_, by rw [hu]; rfl, ?_⟩
      · have hvalue : IsExactly u (significand * 2 ^ exponent) := .of_positive hu
        have hpos : (significand : ℚ) * 2 ^ exponent ≠ 0 := by positivity
        exact hpos (hvalue.unique hzero)
      · rw [plainText, plainText, hbinary, hu, String.toList_ofList, String.toList_ofList]
        cases negative with
        | false => rfl
        | true => exact plainText_negative hsignificand exponent

/-! ## Equal texts -/

section Equal

variable {x y : Float}

theorem plainText_ne_zero (hx : x.isNaN = false) (hne : ¬ IsExactly x 0) : plainText x ≠ "0" := by
  intro h
  have hfinite : Binary.ofFloat 0 = .finite false 0 (-1074) := by decide
  have hzero : IsExactly 0 0 := .of_finite false 0 (-1074) hfinite (by norm_num)
  have hliteral := isLiteral_of_finite hfinite
  obtain ⟨u, negative, hu, hune, -, htext⟩ := exists_signed_plainText hx hne
  have hsigned : signed negative (plainText u).toList = signed false (plainText 0).toList := by
    rw [← htext, h, plainText_of_zero hzero]
    rfl
  obtain ⟨-, hsame⟩ := Json.Numeral.signed_inj (minus_notMem_head_plainText hu)
    (minus_notMem_head_plainText hliteral) hsigned
  rw [plainText_inj hu hliteral (String.toList_injective hsame)] at hune
  exact hune hzero

/-- Only the two zeros share a text. -/
theorem plainText_eq_iff (hx : x.isNaN = false) (hy : y.isNaN = false) :
    plainText x = plainText y ↔ x = y ∨ IsExactly x 0 ∧ IsExactly y 0 := by
  constructor
  · intro h
    by_cases hzero : IsExactly x 0 <;> by_cases hzero' : IsExactly y 0
    · exact .inr ⟨hzero, hzero'⟩
    · exact absurd (h ▸ plainText_of_zero hzero) (plainText_ne_zero hy hzero')
    · exact absurd (h ▸ plainText_of_zero hzero') (plainText_ne_zero hx hzero)
    · obtain ⟨u, negative, hu, -, hbinary, htext⟩ := exists_signed_plainText hx hzero
      obtain ⟨u', negative', hu', -, hbinary', htext'⟩ := exists_signed_plainText hy hzero'
      rw [h, htext'] at htext
      obtain ⟨rfl, hsame⟩ := Json.Numeral.signed_inj (minus_notMem_head_plainText hu')
        (minus_notMem_head_plainText hu) htext
      obtain rfl := plainText_inj hu' hu (String.toList_injective hsame)
      exact .inl (ofFloat_injective (hbinary.trans hbinary'.symm))
  · rintro (rfl | ⟨hzero, hzero'⟩)
    · rfl
    · rw [plainText_of_zero hzero, plainText_of_zero hzero']

theorem beq_self_of_not_isNaN (hx : x.isNaN = false) : (x == x) = true := by
  cases hbinary : Binary.ofFloat x with
  | nan => exact absurd hbinary (ofFloat_ne_nan hx)
  | infinite negative =>
      rw [beq_iff_compare, unpack_eq, hbinary]
      cases negative <;> rfl
  | finite negative significand exponent =>
      have hvalue : IsExactly x _ := .of_finite negative significand exponent hbinary rfl
      exact (hvalue.beq_iff hvalue).mpr rfl

end Equal

end Number

/-! ## Programs that print what was printed -/

/-- The text of zero or of a double in the range without exponents is one number for that double,
and a program that prints it prints the double again. Of all doubles with a value, only the two
zeros share a text, and they are equal. -/
theorem plainText_reads_back :
    (∀ v : Float, v = 0 ∨ (∃ q, Number.IsExactly v q ∧ 1 / 10 ^ 4 ≤ q ∧ q < 10 ^ 16) →
      ((tokenize (Number.plainText v)).error? = none ∧
        ∃ t, (tokenize (Number.plainText v)).tokens = [t] ∧
          t.kind = .number ∧ t.value = .number v) ∧
      ∀ env, (run env ("print " ++ Number.plainText v)).error? = none ∧
        (run env ("print " ++ Number.plainText v)).printed = [v]) ∧
    ∀ v w : Float, v.isNaN = false → w.isNaN = false →
      (Number.plainText v = Number.plainText w → (v == w) = true) ∧
      (Number.plainText v = Number.plainText w ↔
        v = w ∨ Number.IsExactly v 0 ∧ Number.IsExactly w 0) := by
  constructor
  · intro v hv
    have hnumeral := Number.numeral_plainText hv
    have htokens := tokenize_numeral hnumeral
    have hparse := parseSource_print hnumeral
    rw [String.ofList_toList] at htokens hparse
    refine ⟨⟨htokens.2, _, htokens.1, rfl, rfl⟩, fun env => ?_⟩
    obtain ⟨herror, -, heffects⟩ := run_of_ok hparse env
    rw [interpret_print] at herror heffects
    refine ⟨herror, ?_⟩
    rw [Run.printed, heffects]
    rfl
  · intro v w hv hw
    have hiff := Number.plainText_eq_iff hv hw
    refine ⟨fun h => ?_, hiff⟩
    rcases hiff.mp h with rfl | ⟨hzero, hzero'⟩
    · exact Number.beq_self_of_not_isNaN hv
    · exact (hzero.beq_iff hzero').mpr rfl

-- The least double of the range is that nearest to one ten-thousandth.
example : Number.plainText (Number.nearest 1 (10 ^ 4)) = "0.0001" := by decide +kernel

end Reckoner
