import Reckoner.Proofs.Json.Numeral

/-!
# Doubles as JSON numbers

The full text of a finite double that is not negative is a number, in whichever way its shortest
decimal is laid out, and it stands for that double again. The text of an integer is a number too,
and stands for the integer.
-/

namespace Reckoner.Json

open Number (Decimal signed zeros digitsOf dropEndZeros)

/-! ## Runs of digits -/

theorem natural_append (a b : List Char) :
    natural (a ++ b) = natural a * 10 ^ b.length + natural b := by
  rw [natural, Nat.ofDigitChars_append, Nat.ofDigitChars_eq_ofDigitChars_zero, Nat.mul_comm]
  rfl

theorem length_zeros (k : ℕ) : (zeros k).length = k :=
  List.length_replicate

theorem natural_zeros (k : ℕ) : natural (zeros k) = 0 := by
  rw [natural, zeros, Nat.ofDigitChars_replicate_zero, Nat.mul_zero]

theorem isDigit_zeros {k : ℕ} : ∀ c ∈ zeros k, c.isDigit = true := by
  intro c hc
  rw [List.eq_of_mem_replicate hc]
  rfl

theorem isDigit_digitsOf {n : ℕ} : ∀ c ∈ digitsOf n, c.isDigit = true :=
  fun _ hc => Nat.isDigit_of_mem_toDigits (by norm_num) (by norm_num) hc

theorem exists_head_digitsOf {n : ℕ} (h : 0 < n) : ∃ c cs, digitsOf n = c :: cs ∧ c ≠ '0' := by
  induction n using Nat.strong_induction_on with
  | h n ih =>
    rcases Nat.lt_or_ge n 10 with hlt | hge
    · refine ⟨n.digitChar, [], Nat.toDigits_of_lt_base hlt, fun hzero => ?_⟩
      have hcode := Nat.toNat_digitChar_of_lt_ten hlt
      rw [hzero] at hcode
      have : '0'.toNat = 48 := rfl
      omega
    · obtain ⟨c, cs, hcs, hc⟩ := ih (n / 10) (by omega) (by omega)
      refine ⟨c, cs ++ [(n % 10).digitChar], ?_, hc⟩
      rw [digitsOf, Nat.toDigits_of_base_le (by norm_num) hge]
      exact congrArg (· ++ [(n % 10).digitChar]) hcs

theorem exists_zeros (digits : List Char) : ∃ k, digits = dropEndZeros digits ++ zeros k := by
  refine ⟨(digits.reverse.takeWhile (· == '0')).length, ?_⟩
  have hall : ∀ c ∈ digits.reverse.takeWhile (· == '0'), c = '0' := by
    intro c hc
    simpa using List.mem_takeWhile_imp hc
  have hsplit := congrArg List.reverse
    (List.takeWhile_append_dropWhile (p := (· == '0')) (l := digits.reverse))
  rw [List.reverse_append, List.reverse_reverse, List.eq_replicate_of_mem hall,
    List.reverse_replicate] at hsplit
  exact hsplit.symm

/-- What is laid out of a positive decimal: its digits up to the last that is not zero, which spell
its value for the place of the point. -/
theorem significant_digits {d : Decimal} (h : 0 < d.digits) :
    (∃ c cs, dropEndZeros (digitsOf d.digits) = c :: cs ∧ c ≠ '0') ∧
      (∀ c ∈ dropEndZeros (digitsOf d.digits), c.isDigit = true) ∧
      d.value = natural (dropEndZeros (digitsOf d.digits)) *
        10 ^ ((digitsOf d.digits).length + d.exponent -
          (dropEndZeros (digitsOf d.digits)).length) := by
  obtain ⟨k, hk⟩ := exists_zeros (digitsOf d.digits)
  obtain ⟨c, cs, hcs, hc⟩ := exists_head_digitsOf h
  have hdigits := isDigit_digitsOf (n := d.digits)
  have hvalue : natural (digitsOf d.digits) = d.digits := Nat.ofDigitChars_ten_toDigits
  generalize dropEndZeros (digitsOf d.digits) = digits at hk ⊢
  refine ⟨?_, ?_, ?_⟩
  · cases digits with
    | nil =>
        rw [hcs, List.nil_append] at hk
        exact absurd (List.eq_of_mem_replicate (hk ▸ List.mem_cons_self)) hc
    | cons c' cs' =>
        rw [hcs] at hk
        obtain ⟨rfl, -⟩ := List.cons.inj hk
        exact ⟨c, cs', rfl, hc⟩
  · intro c hc
    exact hdigits c (hk ▸ List.mem_append_left _ hc)
  · rw [hk, natural_append, natural_zeros] at hvalue
    rw [hk, List.length_append, Decimal.value, ← hvalue, length_zeros]
    push_cast
    rw [add_zero, mul_assoc, ← zpow_natCast, ← zpow_add₀ (by norm_num)]
    congr 2
    omega

/-! ## Layouts -/

/-- Whether a number has the given text, is a double that is not negative, and has the given exact
value. -/
structure Numeral.Lays (m : Numeral) (text : List Char) (value : ℚ) : Prop where
  text_eq : m.text = text
  negative_eq : m.negative = false
  value_eq : m.decimal.value = value
  isDouble : m.fraction ≠ [] ∨ m.exponent ≠ none

section Layout

variable {digits : List Char} {point : ℤ}

theorem value_of_shift {m : Numeral} (k : ℕ)
    (hnatural : natural (m.whole ++ m.fraction) = natural digits * 10 ^ k)
    (hexponent : k + m.decimal.exponent = point - digits.length) :
    m.decimal.value = natural digits * 10 ^ (point - digits.length) := by
  have hdigits : m.decimal.digits = natural digits * 10 ^ k := hnatural
  rw [Decimal.value, hdigits, ← hexponent, zpow_add₀ (by norm_num)]
  push_cast
  rw [zpow_natCast, mul_assoc]

theorem isDigit_append {a b : List Char} (ha : ∀ c ∈ a, c.isDigit = true)
    (hb : ∀ c ∈ b, c.isDigit = true) : ∀ c ∈ a ++ b, c.isDigit = true := by
  intro c hc
  rcases List.mem_append.1 hc with hc | hc
  · exact ha c hc
  · exact hb c hc

variable (hstart : ∃ c cs, digits = c :: cs ∧ c ≠ '0')
  (hdigits : ∀ c ∈ digits, c.isDigit = true)

include hstart hdigits

theorem exists_pointFirst (hpoint : point ≤ 0) :
    ∃ m : Numeral, m.Lays ('0' :: '.' :: (zeros (-point).toNat ++ digits))
      (natural digits * 10 ^ (point - digits.length)) := by
  obtain ⟨c, cs, hcs, -⟩ := hstart
  refine ⟨⟨false, ['0'], zeros (-point).toNat ++ digits, none, by simp, .inl rfl,
    isDigit_append isDigit_zeros hdigits⟩, ?_, rfl, value_of_shift 0 ?_ ?_, ?_⟩
  · simp [Numeral.text, signed, Numeral.fractionText, Numeral.exponentText, hcs]
  · have hzeros : ['0'] ++ (zeros (-point).toNat ++ digits) =
        zeros ((-point).toNat + 1) ++ digits := rfl
    rw [hzeros, natural_append, natural_zeros]
    omega
  · simp only [Numeral.decimal, List.length_append, length_zeros, Option.map_none,
      Option.getD_none]
    omega
  · simp [hcs]

theorem exists_pointLast (hpoint : digits.length ≤ point) :
    ∃ m : Numeral, m.Lays (digits ++ zeros (point - digits.length).toNat ++ ['.', '0'])
      (natural digits * 10 ^ (point - digits.length)) := by
  obtain ⟨c, cs, hcs, hc⟩ := hstart
  refine ⟨⟨false, digits ++ zeros (point - digits.length).toNat, ['0'], none,
    isDigit_append hdigits isDigit_zeros, .inr ⟨c, _, congrArg (· ++ _) hcs, hc⟩, by simp⟩,
    ?_, rfl, value_of_shift ((point - digits.length).toNat + 1) ?_ ?_, ?_⟩
  · simp [Numeral.text, signed, Numeral.fractionText, Numeral.exponentText]
  · have hzeros : digits ++ zeros (point - digits.length).toNat ++ ['0'] =
        digits ++ zeros ((point - digits.length).toNat + 1) := by
      rw [List.append_assoc, zeros, zeros, List.replicate_succ']
    rw [hzeros, natural_append, natural_zeros, length_zeros, Nat.add_zero]
  · simp only [Numeral.decimal, List.length_singleton, Option.map_none, Option.getD_none]
    omega
  · simp

theorem exists_pointInside (hpos : 0 < point) (hpoint : point < digits.length) :
    ∃ m : Numeral,
      m.Lays (digits.take point.toNat ++ '.' :: digits.drop point.toNat)
        (natural digits * 10 ^ (point - digits.length)) := by
  obtain ⟨c, cs, hcs, hc⟩ := hstart
  have hfraction : digits.drop point.toNat ≠ [] := by
    rw [Ne, List.drop_eq_nil_iff]
    omega
  obtain ⟨k, hk⟩ : ∃ k, point.toNat = k + 1 := ⟨point.toNat - 1, by omega⟩
  have hwhole : digits.take point.toNat = c :: cs.take k := by rw [hcs, hk, List.take_succ_cons]
  refine ⟨⟨false, digits.take point.toNat, digits.drop point.toNat, none,
    fun d hd => hdigits d (List.mem_of_mem_take hd), .inr ⟨c, _, hwhole, hc⟩,
    fun d hd => hdigits d (List.mem_of_mem_drop hd)⟩, ?_, rfl, value_of_shift 0 ?_ ?_,
    .inl hfraction⟩
  · simp [Numeral.text, signed, Numeral.fractionText, Numeral.exponentText, hfraction]
  · rw [List.take_append_drop, pow_zero, Nat.mul_one]
  · simp only [Numeral.decimal, List.length_drop, Option.map_none, Option.getD_none]
    omega

theorem exists_positional :
    ∃ m : Numeral, m.Lays (Number.Layout.positional digits point)
      (natural digits * 10 ^ (point - digits.length)) := by
  rw [Number.Layout.positional]
  split_ifs with hneg hshort
  · exact exists_pointFirst hstart hdigits (by omega)
  · exact exists_pointLast hstart hdigits (by omega)
  · exact exists_pointInside hstart hdigits (by omega) (by omega)

omit hstart hdigits in
theorem exists_exponent (layout : Number.Layout) (e : ℤ) :
    ∃ exponent : Exponent, exponent.text = layout.exponentText e ∧ exponent.value = e := by
  have hnatural : natural (zeros (layout.exponentDigits - (digitsOf e.natAbs).length) ++
      digitsOf e.natAbs) = e.natAbs := by
    rw [natural_append, natural_zeros, Nat.zero_mul, Nat.zero_add]
    exact Nat.ofDigitChars_ten_toDigits
  refine ⟨⟨'e', some (decide (e < 0)),
    zeros (layout.exponentDigits - (digitsOf e.natAbs).length) ++ digitsOf e.natAbs, .inl rfl,
    by simp [digitsOf], isDigit_append isDigit_zeros isDigit_digitsOf⟩, ?_, ?_⟩
  · by_cases he : e < 0 <;> simp [Exponent.text, Exponent.signText, Number.Layout.exponentText, he]
  · simp only [Exponent.value, hnatural, Option.some.injEq, decide_eq_true_eq]
    split <;> omega

theorem exists_scientific (layout : Number.Layout) :
    ∃ m : Numeral, m.Lays (layout.scientific digits point)
      (natural digits * 10 ^ (point - digits.length)) := by
  obtain ⟨c, cs, rfl, hc⟩ := hstart
  obtain ⟨e, htext, hvalue⟩ := exists_exponent layout (point - 1)
  refine ⟨⟨false, [c], cs, some e, fun d hd => hdigits d (by simp_all), .inr ⟨c, [], rfl, hc⟩,
    fun d hd => hdigits d (by simp [hd])⟩, ?_, rfl, value_of_shift 0 ?_ ?_, .inr nofun⟩
  · cases cs <;> simp [Numeral.text, signed, Numeral.fractionText, Numeral.exponentText,
      Number.Layout.scientific, htext]
  · rw [pow_zero, Nat.mul_one]
    rfl
  · simp only [Numeral.decimal, List.length_cons, Option.map_some, Option.getD_some, hvalue]
    omega

end Layout

theorem exists_numeral_write (layout : Number.Layout) {d : Decimal} (h : 0 < d.digits) :
    ∃ m : Numeral, m.Lays (layout.write d) d.value := by
  obtain ⟨hstart, hdigits, hvalue⟩ := significant_digits h
  rw [hvalue, Number.Layout.write]
  split
  · exact exists_positional hstart hdigits
  · exact exists_scientific hstart hdigits layout

theorem Numeral.Lays.value_eq_double {m : Numeral} {text : List Char} {d : Decimal}
    (h : m.Lays text d.value) : m.value = .inr d.double := by
  have hdouble : ¬ (m.fraction = [] ∧ m.exponent = none) := by
    rintro ⟨hfraction, hexponent⟩
    exact h.isDouble.elim (fun hne => hne hfraction) fun hne => hne hexponent
  rw [Numeral.value, if_neg hdouble, h.negative_eq, if_neg Bool.false_ne_true, Decimal.double,
    Decimal.double, Decimal.pattern_congr h.value_eq]

/-! ## Doubles and integers -/

section Doubles

open Number

variable {x : Float} {significand : ℕ} {exponent : ℤ} (hle : x.toBits.toNat ≤ infinitePattern)
  (hfinite : Binary.ofFloat x = .finite false significand exponent)

include hle hfinite

theorem double_shortest : (Decimal.shortest significand exponent).double = x := by
  have hpattern := nearestPattern_ofPattern hle hfinite
  rw [Decimal.double, Decimal.pattern_shortest, hpattern, UInt64.ofNat_toNat, ofBits_toBits]

theorem digits_shortest_pos (hne : significand ≠ 0) :
    0 < (Decimal.shortest significand exponent).digits := by
  have hpattern := nearestPattern_ofPattern hle hfinite
  rw [← Decimal.pattern_shortest] at hpattern
  apply Nat.pos_of_ne_zero
  intro hzero
  rw [Decimal.pattern_eq_zero hzero] at hpattern
  exact hne ((pattern_eq_zero_iff hle hfinite).1 hpattern.symm)

/-- The full text of a finite double that is not negative is a number that stands for it. -/
theorem reads_fullText : Numeral.Reads (fullText x).toList (.inr x) := by
  have htext : (fullText x).toList =
      if significand = 0 then "0.0".toList
      else Layout.standard.write (Decimal.shortest significand exponent) := by
    rw [fullText, hfinite, String.toList_ofList]
    rfl
  rw [htext]
  split_ifs with hzero
  · have hbits : x.toBits = 0 := UInt64.toNat_inj.1 ((pattern_eq_zero_iff hle hfinite).2 hzero)
    refine ⟨⟨false, ['0'], ['0'], none, by simp, .inl rfl, by simp⟩, by decide, ?_⟩
    rw [← ofBits_toBits x, hbits]
    rfl
  · obtain ⟨m, hm⟩ := exists_numeral_write Layout.standard (digits_shortest_pos hle hfinite hzero)
    exact ⟨m, hm.text_eq, by rw [hm.value_eq_double, double_shortest hle hfinite]⟩

end Doubles

theorem reads_digitsOf (negative : Bool) (n : ℕ) :
    Numeral.Reads (signed negative (digitsOf n)) (.inl (if negative then -n else n)) := by
  have hvalue : natural (digitsOf n) = n := Nat.ofDigitChars_ten_toDigits
  have hstart : digitsOf n = ['0'] ∨ ∃ c cs, digitsOf n = c :: cs ∧ c ≠ '0' := by
    rcases Nat.eq_zero_or_pos n with rfl | hn
    · exact .inl (Nat.toDigits_zero 10)
    · exact .inr (exists_head_digitsOf hn)
  refine ⟨⟨negative, digitsOf n, [], none, isDigit_digitsOf, hstart, by simp⟩, ?_, ?_⟩
  · simp [Numeral.text, Numeral.fractionText, Numeral.exponentText]
  · simp [Numeral.value, hvalue]

/-- The text of an integer is a number that stands for it. -/
theorem reads_integer (n : ℤ) : Numeral.Reads (toString n).toList (.inl n) := by
  rw [Int.toString_eq_repr]
  cases n with
  | ofNat n =>
      have htext : (Int.ofNat n).repr.toList = signed false (digitsOf n) := Nat.toList_repr
      rw [htext]
      exact reads_digitsOf false n
  | negSucc n =>
      have htext : (Int.negSucc n).repr.toList = signed true (digitsOf (n + 1)) := by
        rw [Int.repr, String.toList_append, Nat.toList_repr]
        rfl
      rw [htext]
      exact reads_digitsOf true (n + 1)

end Reckoner.Json
