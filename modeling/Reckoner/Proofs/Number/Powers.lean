import Reckoner.Proofs.Number.Exactness

/-!
# Powers that are no finite doubles

Where finite operands have no power among the finite doubles, the attempt to find one says whether
the power is out of range or whether there is none, and the result is chosen by the operands. It is
compared here with the double that the standard for floating-point arithmetic prescribes, which is
told by the exact values of the operands and their real power. The two agree, but for negative zero
to a negative odd power, where the sign of the zero is lost.
-/

namespace Reckoner.Number

/-! ## Powers that the standard prescribes -/

/-- The least magnitude that is rounded beyond the largest double. -/
def overflowBound : ℝ :=
  2 ^ 1024 - 2 ^ 970

/-- Finite operands have the real power `p`: the base is positive, or it is negative and the exponent
is whole. -/
inductive HasPower (base exponent : Float) : (p : ℝ) → Prop
  | intro {b e : ℚ} (hbase : IsExactly base b) (hexponent : IsExactly exponent e) (hne : b ≠ 0)
      (hreal : 0 < b ∨ IsWhole exponent) : HasPower base exponent ((b : ℝ) ^ (e : ℝ))

def Overflows (base exponent : Float) : Prop :=
  ∃ p, HasPower base exponent p ∧ overflowBound ≤ |p|

/-- A zero is raised to a finite negative power. -/
def IsPole (base exponent : Float) : Prop :=
  IsExactly base 0 ∧ ∃ e < 0, IsExactly exponent e

/-- A finite negative number is raised to a finite fractional power. -/
def IsUnreal (base exponent : Float) : Prop :=
  ∃ b < 0, IsExactly base b ∧ (∃ e, IsExactly exponent e) ∧ ¬ IsWhole exponent

/-- Negative zero is raised to a negative odd power. -/
def IsNegativePole (base exponent : Float) : Prop :=
  IsPole base exponent ∧ isNegative base = true ∧ IsOddWhole exponent

/-- The result that the standard prescribes where no finite power of finite operands exists. -/
inductive Prescribes (base exponent : Float) : Float → Prop
  | overflow {p : ℝ} (hpower : HasPower base exponent p) (hp : overflowBound ≤ p) :
      Prescribes base exponent infinity
  | negativeOverflow {p : ℝ} (hpower : HasPower base exponent p) (hp : p ≤ -overflowBound) :
      Prescribes base exponent (-infinity)
  | pole (h : IsPole base exponent) (hsign : ¬ IsNegativePole base exponent) :
      Prescribes base exponent infinity
  | negativePole (h : IsNegativePole base exponent) : Prescribes base exponent (-infinity)
  | unreal (h : IsUnreal base exponent) : Prescribes base exponent notANumber

theorem overflowBound_pos : 0 < overflowBound := by
  rw [overflowBound, sub_pos]
  exact pow_lt_pow_right₀ one_lt_two (by decide)

/-- A real power is negative exactly if it is an odd power of a negative number. -/
theorem rpow_neg_iff {b e : ℚ} (h : 0 < b ∨ ∃ n : ℤ, e = n) :
    (b : ℝ) ^ (e : ℝ) < 0 ↔ b < 0 ∧ ∃ n : ℤ, Odd n ∧ e = n := by
  rcases h with hpos | ⟨n, rfl⟩
  · have hpower : 0 < (b : ℝ) ^ (e : ℝ) := Real.rpow_pos_of_pos (Rat.cast_pos.mpr hpos) _
    exact iff_of_false hpower.not_gt fun hneg => hneg.1.not_gt hpos
  · rw [Rat.cast_intCast, Real.rpow_intCast]
    rcases Int.even_or_odd n with heven | hodd
    · apply iff_of_false (heven.zpow_nonneg _).not_gt
      rintro ⟨-, m, hm, hn⟩
      rw [Int.cast_injective hn] at heven
      exact Int.not_even_iff_odd.mpr hm heven
    · rw [hodd.zpow_neg_iff, Rat.cast_lt_zero]
      exact ⟨fun hneg => ⟨hneg, n, hodd, rfl⟩, And.left⟩

section Operands

variable {base exponent : Float}

theorem HasPower.neg_iff {p : ℝ} (h : HasPower base exponent p) :
    p < 0 ↔ base < 0 ∧ IsOddWhole exponent := by
  obtain ⟨hbase, hexponent, -, hreal⟩ := h
  have hwhole {n : ℤ} (hn : IsExactly exponent n) := hexponent.unique hn
  rw [hbase.lt_zero_iff, rpow_neg_iff]
  · constructor
    · rintro ⟨hneg, n, hodd, rfl⟩
      exact ⟨hneg, n, hodd, hexponent⟩
    · rintro ⟨hneg, n, hodd, hn⟩
      exact ⟨hneg, n, hodd, hwhole hn⟩
  · exact hreal.imp_right fun ⟨n, hn⟩ => ⟨n, hwhole hn⟩

/-- Where a power overflows, there is one. -/
theorem Overflows.not_undefined (h : Overflows base exponent) :
    ¬ (IsPole base exponent ∨ IsUnreal base exponent) := by
  obtain ⟨_, ⟨hbase, -, hne, hreal⟩, -⟩ := h
  rintro (⟨hzero, -⟩ | ⟨b, hneg, hb, -, hfraction⟩)
  · exact hne (hbase.unique hzero)
  · rw [← hbase.unique hb] at hneg
    exact hreal.elim hneg.not_gt hfraction

theorem IsPole.not_isUnreal (h : IsPole base exponent) : ¬ IsUnreal base exponent := by
  rintro ⟨b, hneg, hb, -⟩
  exact hneg.ne (hb.unique h.1)

theorem isFinite_of_raises
    (h : Overflows base exponent ∨ IsPole base exponent ∨ IsUnreal base exponent) :
    base.isFinite = true ∧ exponent.isFinite = true := by
  rw [isFinite_iff, isFinite_iff]
  rcases h with ⟨_, ⟨hbase, hexponent, -, -⟩, -⟩ | ⟨hbase, e, -, hexponent⟩ |
    ⟨b, -, hbase, hexponent, -⟩
  · exact ⟨⟨_, hbase⟩, _, hexponent⟩
  · exact ⟨⟨0, hbase⟩, e, hexponent⟩
  · exact ⟨⟨b, hbase⟩, hexponent⟩

theorem exists_prescribes_iff :
    (∃ r, Prescribes base exponent r) ↔
      Overflows base exponent ∨ IsPole base exponent ∨ IsUnreal base exponent := by
  constructor
  · rintro ⟨r, hr⟩
    cases hr with
    | overflow hpower hp => exact .inl ⟨_, hpower, le_abs.mpr (.inl hp)⟩
    | negativeOverflow hpower hp => exact .inl ⟨_, hpower, le_abs.mpr (.inr (le_neg.mp hp))⟩
    | pole hpole hsign => exact .inr (.inl hpole)
    | negativePole hpole => exact .inr (.inl hpole.1)
    | unreal hunreal => exact .inr (.inr hunreal)
  · rintro (⟨p, hpower, hp⟩ | hpole | hunreal)
    · rcases le_abs.mp hp with hp | hp
      · exact ⟨_, .overflow hpower hp⟩
      · exact ⟨_, .negativeOverflow hpower (le_neg.mpr hp)⟩
    · by_cases hsign : IsNegativePole base exponent
      · exact ⟨_, .negativePole hsign⟩
      · exact ⟨_, .pole hpole hsign⟩
    · exact ⟨_, .unreal hunreal⟩

theorem Prescribes.eq_of_isNegativePole {r : Float} (h : Prescribes base exponent r)
    (hpole : IsNegativePole base exponent) : r = -infinity := by
  cases h with
  | overflow hpower hp =>
      have hoverflow : Overflows base exponent := ⟨_, hpower, le_abs.mpr (.inl hp)⟩
      exact absurd (.inl hpole.1) hoverflow.not_undefined
  | negativeOverflow hpower hp => rfl
  | pole _ hsign => exact absurd hpole hsign
  | negativePole _ => rfl
  | unreal hunreal => exact absurd hunreal hpole.1.not_isUnreal

end Operands

/-! ## Attempts -/

/-- The attempt raises an overflow exactly where there is one, finds the power undefined exactly at
a pole and where it is not real, and gives the power of the function `pow` otherwise. -/
structure RaisesAsDocumented (attempt : Float → Float → Attempt) (pow : Float → Float → Float) :
    Prop where
  overflow {base exponent : Float} (h : Overflows base exponent) :
    attempt base exponent = .overflow
  undefined {base exponent : Float} (h : IsPole base exponent ∨ IsUnreal base exponent) :
    attempt base exponent = .undefined
  value {base exponent : Float} (hoverflow : ¬ Overflows base exponent)
    (hdefined : ¬ (IsPole base exponent ∨ IsUnreal base exponent)) :
    attempt base exponent = .value (pow base exponent)

open Classical in
/-- Such an attempt exists for every function, as no two of the cases meet. -/
noncomputable def attemptAsDocumented (pow : Float → Float → Float) (base exponent : Float) :
    Attempt :=
  if Overflows base exponent then .overflow
  else if IsPole base exponent ∨ IsUnreal base exponent then .undefined
  else .value (pow base exponent)

theorem attemptAsDocumented_raises (pow : Float → Float → Float) :
    RaisesAsDocumented (attemptAsDocumented pow) pow := by
  constructor
  · intro base exponent hoverflow
    exact if_pos hoverflow
  · intro base exponent hundefined
    rw [attemptAsDocumented, if_neg fun hoverflow => hoverflow.not_undefined hundefined,
      if_pos hundefined]
  · intro base exponent hoverflow hdefined
    rw [attemptAsDocumented, if_neg hoverflow, if_neg hdefined]

/-- A function on doubles is infinite and not a number where a power function is, at finite
operands. -/
structure IsPowerFunction (pow : Float → Float → Float) : Prop where
  isNaN_iff {base exponent : Float} (hbase : base.isFinite = true)
    (hexponent : exponent.isFinite = true) :
    (pow base exponent).isNaN = true ↔ IsUnreal base exponent
  isInf_iff {base exponent : Float} (hbase : base.isFinite = true)
    (hexponent : exponent.isFinite = true) :
    (pow base exponent).isInf = true ↔ Overflows base exponent ∨ IsPole base exponent

theorem attemptBy_raises {pow : Float → Float → Float} (h : IsPowerFunction pow) :
    RaisesAsDocumented (attemptBy pow) pow := by
  constructor
  · intro base exponent hoverflow
    obtain ⟨hbase, hexponent⟩ := isFinite_of_raises (.inl hoverflow)
    have hnan := (h.isNaN_iff hbase hexponent).not.mpr fun hunreal =>
      hoverflow.not_undefined (.inr hunreal)
    have hinf := (h.isInf_iff hbase hexponent).mpr (.inl hoverflow)
    have hne : ¬ (base == 0) = true := by
      obtain ⟨_, ⟨hb, -, hne, -⟩, -⟩ := hoverflow
      exact hb.beq_zero_iff.not.mpr hne
    simp only [attemptBy, hbase, hexponent, hnan, hinf, hne, Bool.and_self, if_true, if_false,
      Bool.false_eq_true]
  · rintro base exponent (hpole | hunreal)
    · obtain ⟨hbase, hexponent⟩ := isFinite_of_raises (.inr (.inl hpole))
      have hnan := (h.isNaN_iff hbase hexponent).not.mpr hpole.not_isUnreal
      have hinf := (h.isInf_iff hbase hexponent).mpr (.inr hpole)
      have hzero : (base == 0) = true := hpole.1.beq_zero_iff.mpr rfl
      simp only [attemptBy, hbase, hexponent, hnan, hinf, hzero, Bool.and_self, if_true, if_false,
        Bool.false_eq_true]
    · obtain ⟨hbase, hexponent⟩ := isFinite_of_raises (.inr (.inr hunreal))
      have hnan := (h.isNaN_iff hbase hexponent).mpr hunreal
      simp only [attemptBy, hbase, hexponent, hnan, Bool.and_self, if_true]
  · intro base exponent hoverflow hdefined
    rw [not_or] at hdefined
    by_cases hfinite : (base.isFinite && exponent.isFinite) = true
    · obtain ⟨hbase, hexponent⟩ := Bool.and_eq_true_iff.mp hfinite
      have hnan := (h.isNaN_iff hbase hexponent).not.mpr hdefined.2
      have hinf := (h.isInf_iff hbase hexponent).not.mpr (not_or.mpr ⟨hoverflow, hdefined.1⟩)
      simp only [attemptBy, hfinite, hnan, hinf, if_true, if_false, Bool.false_eq_true]
    · simp only [attemptBy, hfinite, if_false, Bool.false_eq_true]

section Results

variable {attempt : Float → Float → Attempt} {pow : Float → Float → Float}
  (h : RaisesAsDocumented attempt pow) {base exponent : Float}

include h

theorem powerBy_of_hasPower {p : ℝ} (hpower : HasPower base exponent p)
    (hp : overflowBound ≤ |p|) :
    powerBy attempt base exponent = if p < 0 then -infinity else infinity := by
  have hsign : (decide (base < 0) && isOdd exponent) = true ↔ p < 0 := by
    rw [Bool.and_eq_true, decide_eq_true_iff, isOdd_iff, hpower.neg_iff]
  rw [powerBy, h.overflow ⟨p, hpower, hp⟩]
  exact if_congr hsign rfl rfl

theorem powerBy_of_isPole (hpole : IsPole base exponent) :
    powerBy attempt base exponent = infinity := by
  rw [powerBy, h.undefined (.inl hpole)]
  exact if_pos (hpole.1.beq_zero_iff.mpr rfl)

theorem powerBy_of_isUnreal (hunreal : IsUnreal base exponent) :
    powerBy attempt base exponent = notANumber := by
  obtain ⟨b, hneg, hb, -⟩ := id hunreal
  rw [powerBy, h.undefined (.inr hunreal)]
  exact if_neg (hb.beq_zero_iff.not.mpr hneg.ne)

theorem powerBy_prescribed {r : Float} (hr : Prescribes base exponent r)
    (hsign : ¬ IsNegativePole base exponent) : powerBy attempt base exponent = r := by
  have hbound := overflowBound_pos
  cases hr with
  | overflow hpower hp =>
      rw [powerBy_of_hasPower h hpower (le_abs.mpr (.inl hp)), if_neg (by linarith)]
  | negativeOverflow hpower hp =>
      rw [powerBy_of_hasPower h hpower (le_abs.mpr (.inr (le_neg.mp hp))), if_pos (by linarith)]
  | pole hpole _ => exact powerBy_of_isPole h hpole
  | negativePole hpole => exact absurd hpole hsign
  | unreal hunreal => exact powerBy_of_isUnreal h hunreal

theorem exists_prescribes_iff_raises :
    (∃ r, Prescribes base exponent r) ↔
      attempt base exponent = .overflow ∨ attempt base exponent = .undefined := by
  rw [exists_prescribes_iff]
  constructor
  · exact Or.imp h.overflow h.undefined
  · intro hraises
    by_contra hnone
    rw [not_or] at hnone
    rw [h.value hnone.1 hnone.2] at hraises
    exact hraises.elim Attempt.noConfusion Attempt.noConfusion

end Results

/-- Where no finite power of finite operands exists, the result is the one that the standard
prescribes, but for a negative odd power of negative zero, which is positive infinity. The infinity
has the sign of the real power. Any other result is that of the power function. What runs is the
case of the attempt by the power function of the machine. -/
theorem power_prescribed_iff {attempt : Float → Float → Attempt} {pow : Float → Float → Float}
    (h : RaisesAsDocumented attempt pow) (base exponent : Float) :
    (∀ r, Prescribes base exponent r →
        (powerBy attempt base exponent = r ↔ ¬ IsNegativePole base exponent)) ∧
      (IsNegativePole base exponent →
        Prescribes base exponent (-infinity) ∧ powerBy attempt base exponent = infinity) ∧
      (∀ p, HasPower base exponent p → (p < 0 ↔ base < 0 ∧ IsOddWhole exponent)) ∧
      ((∃ r, Prescribes base exponent r) ↔
        attempt base exponent = .overflow ∨ attempt base exponent = .undefined) ∧
      ((¬ ∃ r, Prescribes base exponent r) →
        powerBy attempt base exponent = pow base exponent) := by
  refine ⟨?_, ?_, fun p hpower => hpower.neg_iff, exists_prescribes_iff_raises h, ?_⟩
  · intro r hr
    refine ⟨?_, powerBy_prescribed h hr⟩
    intro heq hpole
    rw [powerBy_of_isPole h hpole.1, hr.eq_of_isNegativePole hpole] at heq
    exact absurd heq (by decide)
  · intro hpole
    exact ⟨.negativePole hpole, powerBy_of_isPole h hpole.1⟩
  · intro hnone
    rw [exists_prescribes_iff, not_or] at hnone
    rw [powerBy, h.value hnone.1 hnone.2]

theorem power_prescribed_iff_odd :
    Prescribes (Float.ofBits 0xc024000000000000) (Float.ofBits 0x4079100000000000) (-infinity) ∧
      powerBy (attemptAsDocumented Float.pow) (Float.ofBits 0xc024000000000000)
        (Float.ofBits 0x4079100000000000) = -infinity := by
  -- The operands are minus ten and 401.
  have hbase : IsExactly (Float.ofBits 0xc024000000000000) (-10) :=
    .of_finite true (10 * 2 ^ 49) (-49) (by decide) (by norm_num)
  have hexponent : IsExactly (Float.ofBits 0x4079100000000000) (401 : ℤ) :=
    .of_finite false (401 * 2 ^ 44) (-44) (by decide) (by norm_num)
  have hpower := HasPower.intro hbase hexponent (by decide) (.inr ⟨401, hexponent⟩)
  have hlarge : overflowBound ≤ 10 ^ 401 :=
    calc overflowBound ≤ 2 ^ 1024 := sub_le_self _ (by positivity)
      _ ≤ 2 ^ (3 * 401) := pow_le_pow_right₀ one_le_two (by decide)
      _ = 8 ^ 401 := by rw [pow_mul]; norm_num
      _ ≤ 10 ^ 401 := pow_le_pow_left₀ (by norm_num) (by norm_num) 401
  have hsmall : ((-10 : ℚ) : ℝ) ^ (((401 : ℤ) : ℚ) : ℝ) = -10 ^ 401 := by
    rw [Rat.cast_intCast, Real.rpow_intCast, Rat.cast_neg, Rat.cast_ofNat, zpow_ofNat,
      Odd.neg_pow (by decide)]
  have hr := Prescribes.negativeOverflow hpower (by rw [hsmall]; exact neg_le_neg hlarge)
  refine ⟨hr, ?_⟩
  apply ((power_prescribed_iff (attemptAsDocumented_raises Float.pow) _ _).1 _ hr).mpr
  rintro ⟨⟨hzero, -⟩, -⟩
  exact absurd (hzero.unique hbase) (by norm_num)

theorem power_of_negative_zero :
    ∃ attempt pow, RaisesAsDocumented attempt pow ∧
      Prescribes (Float.ofBits 0x8000000000000000) (Float.ofBits 0xbff0000000000000) (-infinity) ∧
      powerBy attempt (Float.ofBits 0x8000000000000000) (Float.ofBits 0xbff0000000000000) =
        infinity ∧
      infinity ≠ -infinity := by
  -- The operands are negative zero and minus one.
  have hbase : IsExactly (Float.ofBits 0x8000000000000000) 0 :=
    .of_finite true 0 (-1074) (by decide) (by norm_num)
  have hexponent : IsExactly (Float.ofBits 0xbff0000000000000) (-1 : ℤ) :=
    .of_finite true (2 ^ 52) (-52) (by decide) (by norm_num)
  have hpole : IsPole (Float.ofBits 0x8000000000000000) (Float.ofBits 0xbff0000000000000) :=
    ⟨hbase, _, by norm_num, hexponent⟩
  have hraises := attemptAsDocumented_raises Float.pow
  have hsign : IsNegativePole (Float.ofBits 0x8000000000000000) (Float.ofBits 0xbff0000000000000) :=
    ⟨hpole, by decide, -1, by decide, hexponent⟩
  exact ⟨_, _, hraises, .negativePole hsign, powerBy_of_isPole hraises hpole, by decide⟩

end Reckoner.Number
