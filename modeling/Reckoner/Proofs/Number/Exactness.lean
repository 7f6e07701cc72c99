import Reckoner.Number.Arithmetic
import Reckoner.Proofs.Number.Rounding
import Reckoner.Proofs.Number.Whole

/-!
# Doubles and their exact values

Doubles are compared by what their bit patterns stand for. A finite double is therefore below zero
or equal to it if its exact value is, and it is an odd number if its exact value is one.
-/

namespace Reckoner.Number

open Float.Model (Format)
open Float.Model.UnpackedFloat

def signOf : Bool → Sign
  | true => .negative
  | false => .positive

/-- What is compared when doubles are. -/
def Binary.unpacked : Binary → Float.Model.UnpackedFloat
  | .nan => .notANumber
  | .infinite negative => .infinity (signOf negative)
  | .finite negative significand exponent =>
    if h : significand = 0 then .zero (signOf negative)
    else .finite (signOf negative) significand exponent (Nat.pos_of_ne_zero h)

theorem ofBitVec_unpackSign (b : BitVec 64) :
    Sign.ofBitVec (@unpackSign Format.binary64 b) = signOf (decide (2 ^ 63 ≤ b.toNat)) := by
  have hbound : b.toNat < 2 ^ 64 := b.isLt
  by_cases h : 2 ^ 63 ≤ b.toNat
  · have hone : @unpackSign Format.binary64 b = 1#1 := by
      apply BitVec.eq_of_toNat_eq
      rw [toNat_unpackSign, BitVec.toNat_ofNat]
      omega
    rw [hone, decide_eq_true h]
    rfl
  · have hzero : @unpackSign Format.binary64 b = 0#1 := by
      apply BitVec.eq_of_toNat_eq
      rw [toNat_unpackSign, BitVec.toNat_ofNat]
      omega
    rw [hzero, decide_eq_false h]
    rfl

/-- A bit pattern is taken apart as comparisons take it apart. -/
theorem unpack_eq (x : Float) :
    unpack Format.binary64 x.toBits.toBitVec = (Binary.ofFloat x).unpacked := by
  have hbits : x.toBits.toNat = x.toBits.toBitVec.toNat := rfl
  rw [Binary.ofFloat, ofPattern_eq, hbits]
  generalize x.toBits.toBitVec = b
  have hfield := toNat_unpackExponent (b := b)
  have hfraction := toNat_unpackMantissa (b := b)
  have hspecial : @unpackExponent Format.binary64 b = -1#_ ↔ b.toNat / 2 ^ 52 % 2 ^ 11 = 2047 := by
    rw [← BitVec.toNat_inj, hfield]
    rfl
  have hsubnormal : @unpackExponent Format.binary64 b = 0#_ ↔ b.toNat / 2 ^ 52 % 2 ^ 11 = 0 := by
    rw [← BitVec.toNat_inj, hfield]
    rfl
  have hzero : @unpackMantissa Format.binary64 b = 0#_ ↔ b.toNat % 2 ^ 52 = 0 := by
    rw [← BitVec.toNat_inj, hfraction]
    rfl
  have hbias : ((Format.binary64.exponentBias : ℤ) + Format.binary64.mantissaBitsWithoutImplicit) =
      1075 := rfl
  have hleast : Binary.leastExponent = -1074 := rfl
  simp only [unpack, ofBitVec_unpackSign]
  by_cases hmax : b.toNat / 2 ^ 52 % 2 ^ 11 = 2047
  · rw [if_pos (hspecial.mpr hmax), if_pos hmax]
    by_cases hnull : b.toNat % 2 ^ 52 = 0
    · rw [if_pos (hzero.mpr hnull), if_pos hnull]
      rfl
    · rw [if_neg (hzero.not.mpr hnull), if_neg hnull]
      rfl
  · rw [if_neg (hspecial.not.mpr hmax), if_neg hmax]
    by_cases hmin : b.toNat / 2 ^ 52 % 2 ^ 11 = 0
    · rw [if_pos (hsubnormal.mpr hmin), if_pos hmin, Binary.unpacked]
      by_cases hnull : b.toNat % 2 ^ 52 = 0
      · rw [dif_pos (hzero.mpr hnull), dif_pos hnull]
      · rw [dif_neg (hzero.not.mpr hnull), dif_neg hnull, finite.injEq, hfraction, hfield, hbias,
          hmin]
        exact ⟨rfl, rfl, rfl⟩
    · rw [if_neg (hsubnormal.not.mpr hmin), if_neg hmin, Binary.unpacked, dif_neg (by omega),
        finite.injEq, toNat_implicit_append, hfraction, hfield, hbias, hleast]
      exact ⟨rfl, by omega, by omega⟩

theorem lt_iff_compare (x y : Float) :
    x < y ↔ (unpack Format.binary64 x.toBits.toBitVec).compare
      (unpack Format.binary64 y.toBits.toBitVec) = some .lt := by
  have hlt : (x < y) = (decide (x.toModel < y.toModel) = true) := rfl
  rw [hlt, decide_eq_true_iff]
  exact beq_iff_eq

theorem beq_iff_compare (x y : Float) :
    (x == y) = true ↔ (unpack Format.binary64 x.toBits.toBitVec).compare
      (unpack Format.binary64 y.toBits.toBitVec) = some .eq := by
  have hbeq : (x == y) = ((unpack Format.binary64 x.toBits.toBitVec).compare
      (unpack Format.binary64 y.toBits.toBitVec) == some .eq) := rfl
  rw [hbeq, beq_iff_eq]

theorem Binary.compare_zero {b : Binary} {q : ℚ} (h : b.value? = some q) :
    (b.unpacked.compare (.zero .positive) = some .lt ↔ q < 0) ∧
      (b.unpacked.compare (.zero .positive) = some .eq ↔ q = 0) := by
  cases b with
  | nan => cases h
  | infinite negative => cases h
  | finite negative significand exponent =>
      obtain rfl := Option.some.inj h
      have hscale : (0 : ℚ) < 2 ^ exponent := by positivity
      rcases Nat.eq_zero_or_pos significand with rfl | hpos
      · simp [unpacked, Float.Model.UnpackedFloat.compare]
      · have hmagnitude : (0 : ℚ) < significand * 2 ^ exponent :=
          mul_pos (Nat.cast_pos.mpr hpos) hscale
        rw [unpacked, dif_neg hpos.ne']
        cases negative with
        | true => simp [signOf, Float.Model.UnpackedFloat.compare, hmagnitude, hmagnitude.ne']
        | false => simp [signOf, Float.Model.UnpackedFloat.compare, hmagnitude.le, hmagnitude.ne']

/-- Whether a double is finite and has the given exact value. -/
def IsExactly (x : Float) (q : ℚ) : Prop :=
  (Binary.ofFloat x).value? = some q

namespace IsExactly

variable {x : Float} {q r : ℚ}

theorem of_finite (negative : Bool) (m : ℕ) (e : ℤ) (h : Binary.ofFloat x = .finite negative m e)
    (hq : (if negative then -1 else 1) * (m * 2 ^ e) = q) : IsExactly x q := by
  rw [IsExactly, h, Binary.value?, hq]

theorem unique (hq : IsExactly x q) (hr : IsExactly x r) : q = r :=
  Option.some.inj (hq.symm.trans hr)

theorem lt_zero_iff (h : IsExactly x q) : x < 0 ↔ q < 0 := by
  rw [lt_iff_compare, unpack_eq]
  exact (Binary.compare_zero h).1

theorem beq_zero_iff (h : IsExactly x q) : (x == 0) = true ↔ q = 0 := by
  rw [beq_iff_compare, unpack_eq]
  exact (Binary.compare_zero h).2

end IsExactly

theorem isFinite_iff (x : Float) : x.isFinite = true ↔ ∃ q, IsExactly x q := by
  have hunpack : x.isFinite = (Binary.ofFloat x).unpacked.isFinite := by
    rw [← unpack_eq]
    rfl
  rw [hunpack]
  simp only [IsExactly]
  cases Binary.ofFloat x with
  | nan => simp [Binary.unpacked, Binary.value?, Float.Model.UnpackedFloat.isFinite]
  | infinite negative => simp [Binary.unpacked, Binary.value?, Float.Model.UnpackedFloat.isFinite]
  | finite negative significand exponent =>
      rw [Binary.unpacked]
      split <;> simp [Binary.value?, Float.Model.UnpackedFloat.isFinite]

/-! ## Whole numbers -/

def IsWhole (x : Float) : Prop :=
  ∃ n : ℤ, IsExactly x n

def IsOddWhole (x : Float) : Prop :=
  ∃ n : ℤ, Odd n ∧ IsExactly x n

theorem isOdd_iff (x : Float) : isOdd x = true ↔ IsOddWhole x := by
  simp only [IsOddWhole, IsExactly, ← Binary.whole?_eq_some_iff, isOdd, Int.odd_iff]
  cases (Binary.ofFloat x).whole? with
  | none => simp
  | some n =>
      rw [bne_iff_ne, ne_eq, Int.emod_two_ne_zero]
      constructor
      · intro hodd
        exact ⟨n, hodd, rfl⟩
      · rintro ⟨m, hodd, hm⟩
        rwa [Option.some.inj hm]

end Reckoner.Number
