import Mathlib
import Reckoner.Number.Binary

/-!
# Doubles and their bit patterns

A double is determined by its bit pattern. The patterns of the doubles that are not negative go
from zero to that of infinity; each of them is the pattern of a double, and two such doubles are
equal as numbers only if they are the same double.
-/

namespace Reckoner.Number

open Float.Model (Format)
open Float.Model.UnpackedFloat

/-! ## Taking a pattern apart and putting it together -/

theorem toBitVec_ofBitVec (b : BitVec 1) : (Sign.ofBitVec b).toBitVec = b := by
  revert b
  decide

theorem packComponents_unpack (b : BitVec Format.binary64.numBits) :
    packComponents Format.binary64 (Sign.ofBitVec (unpackSign b)) (unpackExponent b)
      (unpackMantissa b) = b := by
  rw [packComponents, toBitVec_ofBitVec]
  ext i hi
  simp only [unpackSign, unpackExponent, unpackMantissa, BitVec.getElem_append]
  simp
  grind

theorem toNat_implicit_append (mantissa : BitVec 52) :
    (1#1 ++ mantissa).toNat = 2 ^ 52 + mantissa.toNat := by
  rw [BitVec.toNat_append, ← Nat.shiftLeft_add_eq_or_of_lt mantissa.isLt, Nat.shiftLeft_eq]
  simp

section Fields

variable (sign : Sign) (exponent : BitVec 11) (mantissa : BitVec 52)

theorem pack_subnormal (hpos : 0 < mantissa.toNat) :
    pack Format.binary64
        (.finite sign mantissa.toNat
          (((0#11).toNat : ℤ) - (Format.binary64.exponentBias + (52 : ℕ)) + 1) hpos) =
      packComponents Format.binary64 sign 0#11 mantissa := by
  have hlog : mantissa.toNat.log2 < 52 := (Nat.log2_lt hpos.ne').mpr mantissa.isLt
  have hbits : Format.binary64.mantissaBits = 53 := rfl
  simp only [pack]
  rw [if_neg (by decide), if_neg (by omega), BitVec.ofNat_toNat, BitVec.setWidth_eq]

theorem pack_normal (hexponent : exponent.toNat ≠ 2047) (hpos : 0 < (1#1 ++ mantissa).toNat) :
    pack Format.binary64
        (.finite sign (1#1 ++ mantissa).toNat
          ((exponent.toNat : ℤ) - (Format.binary64.exponentBias + (52 : ℕ))) hpos) =
      packComponents Format.binary64 sign exponent mantissa := by
  have hsum := toNat_implicit_append mantissa
  have hfield : exponent.toNat < 2 ^ 11 := exponent.isLt
  have hmantissa : mantissa.toNat < 2 ^ 52 := mantissa.isLt
  have hbits : Format.binary64.mantissaBits = 53 := rfl
  have hlog : (1#1 ++ mantissa).toNat.log2 = 52 := by
    rw [hsum, Nat.log2_eq_iff (by omega)]
    omega
  have hbiased : ((exponent.toNat : ℤ) - ((Format.binary64.exponentBias : ℤ) + (52 : ℕ)) +
      (Format.binary64.exponentBias : ℤ) + (52 : ℕ)).toNat = exponent.toNat := by
    omega
  -- The implicit bit lies above the 52 bits of the field and is cut off.
  have hcut : BitVec.ofNat 52 (2 ^ 52 + mantissa.toNat) = mantissa := by
    apply BitVec.eq_of_toNat_eq
    rw [BitVec.toNat_ofNat, Nat.add_mod_left, Nat.mod_eq_of_lt hmantissa]
  simp only [pack]
  rw [hbiased, if_neg (by omega), if_pos (by rw [hlog, hbits]), hsum, BitVec.ofNat_toNat,
    BitVec.setWidth_eq, hcut]

end Fields

theorem pack_unpack {b : BitVec Format.binary64.numBits} (h : Format.binary64.Valid b) :
    pack Format.binary64 (unpack Format.binary64 b) = b := by
  have hb := packComponents_unpack b
  rw [unpack]
  split_ifs with hspecial hzero hsubnormal hzero
  · rw [pack, packedInfinity, ← hspecial]
    simpa [hzero] using hb
  · rw [pack]
    exact (h.eq_packedNaN hspecial hzero).symm
  · rw [pack, packedZero]
    simpa [hsubnormal, hzero] using hb
  · rw [hsubnormal] at hb ⊢
    exact (pack_subnormal _ _ _).trans hb
  · exact (pack_normal _ _ _ (fun h => hspecial (BitVec.eq_of_toNat_eq h)) _).trans hb

/-- A double is determined by its bit pattern. -/
theorem ofBits_toBits (x : Float) : Float.ofBits x.toBits = x := by
  obtain ⟨⟨bits, hvalid⟩⟩ := x
  have hpack := pack_unpack hvalid
  simp only [Float.ofBits, Float.toBits, Float.Model.ofBits, Float.Model.pack, hpack]

/-! ## Patterns up to infinity -/

/-- The pattern of infinity. Greater patterns are those of negative doubles and of what is not a
number. -/
def infinitePattern : ℕ := 2047 * 2 ^ 52

section Patterns

variable {b : BitVec 64}

theorem toNat_unpackExponent :
    (@unpackExponent Format.binary64 b).toNat = b.toNat / 2 ^ 52 % 2 ^ 11 := by
  simp [unpackExponent, Nat.shiftRight_eq_div_pow]

theorem toNat_unpackMantissa : (@unpackMantissa Format.binary64 b).toNat = b.toNat % 2 ^ 52 := by
  simp [unpackMantissa]

theorem toNat_unpackSign : (@unpackSign Format.binary64 b).toNat = b.toNat / 2 ^ 63 % 2 := by
  simp [unpackSign, Nat.shiftRight_eq_div_pow]

theorem unpackMantissa_eq_zero (h : b.toNat ≤ infinitePattern)
    (hspecial : @unpackExponent Format.binary64 b = -1#_) :
    @unpackMantissa Format.binary64 b = 0#_ := by
  have hfield := congrArg BitVec.toNat hspecial
  have hall : (-BitVec.ofNat Format.binary64.exponentBits 1).toNat = 2047 := rfl
  rw [toNat_unpackExponent, hall] at hfield
  rw [infinitePattern] at h
  apply BitVec.eq_of_toNat_eq
  rw [toNat_unpackMantissa, BitVec.toNat_zero]
  omega

theorem valid_of_le (h : b.toNat ≤ infinitePattern) : Format.binary64.Valid b :=
  ⟨fun hspecial hmantissa => absurd (unpackMantissa_eq_zero h hspecial) hmantissa⟩

end Patterns

theorem toBits_ofBits {n : UInt64} (h : n.toNat ≤ infinitePattern) :
    (Float.ofBits n).toBits = n := by
  have hpack := pack_unpack (valid_of_le (b := n.toBitVec) h)
  simp only [Float.ofBits, Float.toBits, Float.Model.ofBits, Float.Model.pack, hpack]

theorem nearestPattern_le (numerator denominator : ℕ) :
    nearestPattern numerator denominator ≤ infinitePattern := by
  rw [nearestPattern]
  split
  · exact Nat.zero_le _
  · exact Nat.min_le_right _ _

/-- The nearest double has the pattern that was computed for it. -/
theorem toNat_toBits_nearest (numerator denominator : ℕ) :
    (nearest numerator denominator).toBits.toNat = nearestPattern numerator denominator := by
  have hle := nearestPattern_le numerator denominator
  have hword : (UInt64.ofNat (nearestPattern numerator denominator)).toNat =
      nearestPattern numerator denominator := by
    rw [infinitePattern] at hle
    rw [UInt64.toNat_ofNat']
    omega
  rw [nearest, toBits_ofBits (by rw [hword]; exact hle), hword]

/-! ## Equality of doubles that are not negative -/

def IsNonnegative : Float.Model.UnpackedFloat → Prop
  | .infinity .positive | .zero .positive | .finite .positive .. => True
  | _ => False

theorem compare_eq_iff {a b : Float.Model.UnpackedFloat} (ha : IsNonnegative a)
    (hb : IsNonnegative b) : a.compare b = some .eq ↔ a = b := by
  match a, b, ha, hb with
  | .infinity .positive, .infinity .positive, _, _ => exact iff_of_true rfl rfl
  | .infinity .positive, .zero .positive, _, _ => simp [Float.Model.UnpackedFloat.compare]
  | .infinity .positive, .finite .positive .., _, _ => simp [Float.Model.UnpackedFloat.compare]
  | .zero .positive, .infinity .positive, _, _ => simp [Float.Model.UnpackedFloat.compare]
  | .zero .positive, .zero .positive, _, _ => exact iff_of_true rfl rfl
  | .zero .positive, .finite .positive .., _, _ => simp [Float.Model.UnpackedFloat.compare]
  | .finite .positive .., .infinity .positive, _, _ => simp [Float.Model.UnpackedFloat.compare]
  | .finite .positive .., .zero .positive, _, _ => simp [Float.Model.UnpackedFloat.compare]
  | .finite .positive .., .finite .positive .., _, _ =>
      simp [Float.Model.UnpackedFloat.compare, Ordering.then_eq_eq, and_comm]

theorem isNonnegative_unpack {b : BitVec 64} (h : b.toNat ≤ infinitePattern) :
    IsNonnegative (unpack Format.binary64 b) := by
  have hsign : @unpackSign Format.binary64 b = 0#1 := by
    rw [infinitePattern] at h
    apply BitVec.eq_of_toNat_eq
    rw [toNat_unpackSign, BitVec.toNat_zero]
    omega
  rw [unpack, hsign]
  split_ifs with hspecial hzero
  · trivial
  · exact absurd (unpackMantissa_eq_zero h hspecial) hzero
  · trivial
  · trivial
  · trivial

/-- Doubles that are not negative are equal as numbers only if they are the same double. -/
theorem beq_iff_eq_of_le {x y : Float} (hx : x.toBits.toNat ≤ infinitePattern)
    (hy : y.toBits.toNat ≤ infinitePattern) : (x == y) = true ↔ x = y := by
  have hcompare := compare_eq_iff (isNonnegative_unpack hx) (isNonnegative_unpack hy)
  have hbeq : (x == y) = ((unpack Format.binary64 x.toBits.toBitVec).compare
      (unpack Format.binary64 y.toBits.toBitVec) == some .eq) := rfl
  rw [hbeq, beq_iff_eq, hcompare]
  constructor
  · intro h
    have hbits : x.toBits.toBitVec = y.toBits.toBitVec := by
      rw [← pack_unpack (valid_of_le hx), h, pack_unpack (valid_of_le hy)]
    rw [← ofBits_toBits x, UInt64.toBitVec_inj.1 hbits, ofBits_toBits]
  · rintro rfl
    rfl

end Reckoner.Number
