import Mathlib.Tactic.SplitIfs
import Reckoner.Text.Utf8

/-!
# Encoded texts are decoded

The bytes that encode a character are decoded to it. The four lengths of an encoding are told apart
by the first byte, and none of the refused ranges is met: an encoding is never longer than it has to
be, and no character is a surrogate.
-/

namespace Reckoner.Text.Utf8

theorem toNat_byte {n : Nat} (h : n < 256) : (UInt8.ofNat n).toNat = n := by
  rw [UInt8.toNat_ofNat', Nat.mod_eq_of_lt h]

theorem isTail_of_bits (bits : Nat) : isTail (UInt8.ofNat (bits % 64 + 128)) = true := by
  rw [isTail, toNat_byte (by omega), Bool.and_eq_true, decide_eq_true_iff, decide_eq_true_iff]
  omega

theorem tailBits_of_bits (bits : Nat) : tailBits (UInt8.ofNat (bits % 64 + 128)) = bits % 64 := by
  unfold tailBits
  rw [toNat_byte (by omega)]
  exact Nat.add_sub_cancel _ _

theorem isSecond_of_bits {first : Nat} (bits : Nat)
    (h : (secondRange first).1 ≤ bits % 64 + 128 ∧ bits % 64 + 128 ≤ (secondRange first).2) :
    isSecond first (UInt8.ofNat (bits % 64 + 128)) = true := by
  rw [isSecond, toNat_byte (by omega)]
  simpa using h

variable (place : Nat) (rest : List UInt8) {c : Char}

theorem ofNat_eq {n : Nat} (h : n = c.val.toNat) : Char.ofNat n = c := by
  rw [h]
  exact Char.ofNat_toNat c

theorem decodeFrom_one (h : c.val.toNat ≤ 127) :
    decodeFrom place (UInt8.ofNat c.val.toNat :: rest) =
      (decodeFrom (place + 1) rest).map (c :: ·) := by
  rw [decodeFrom.eq_def]
  dsimp only
  rw [toNat_byte (by omega)]
  rw [if_pos (by omega), ofNat_eq (c := c) rfl]

theorem decodeFrom_two (hlow : 127 < c.val.toNat) (hhigh : c.val.toNat ≤ 2047) :
    decodeFrom place (UInt8.ofNat (c.val.toNat / 64 % 32 + 192) ::
        UInt8.ofNat (c.val.toNat % 64 + 128) :: rest) =
      (decodeFrom (place + 2) rest).map (c :: ·) := by
  have hsecond : isSecond (c.val.toNat / 64 % 32 + 192) (UInt8.ofNat (c.val.toNat % 64 + 128)) := by
    apply isSecond_of_bits
    unfold secondRange
    split_ifs <;> omega
  rw [decodeFrom.eq_def]
  dsimp only
  rw [toNat_byte (by omega)]
  simp only [hsecond, tailBits_of_bits]
  rw [if_neg (by omega), if_neg (by omega), if_pos (by omega), if_pos trivial, ofNat_eq (c := c) (by omega)]

theorem decodeFrom_three (hlow : 2047 < c.val.toNat) (hhigh : c.val.toNat ≤ 65535) :
    decodeFrom place (UInt8.ofNat (c.val.toNat / 4096 % 16 + 224) ::
        UInt8.ofNat (c.val.toNat / 64 % 64 + 128) :: UInt8.ofNat (c.val.toNat % 64 + 128) :: rest) =
      (decodeFrom (place + 3) rest).map (c :: ·) := by
  have hvalid : c.val.toNat < 0xD800 ∨ 0xDFFF < c.val.toNat ∧ c.val.toNat < 0x110000 := c.valid
  have hsecond : isSecond (c.val.toNat / 4096 % 16 + 224)
      (UInt8.ofNat (c.val.toNat / 64 % 64 + 128)) := by
    apply isSecond_of_bits
    unfold secondRange
    split_ifs <;> omega
  rw [decodeFrom.eq_def]
  dsimp only
  rw [toNat_byte (by omega)]
  simp only [hsecond, isTail_of_bits, tailBits_of_bits]
  rw [if_neg (by omega), if_neg (by omega), if_neg (by omega), if_pos (by omega), if_pos trivial,
    if_pos trivial, ofNat_eq (c := c) (by omega)]

theorem decodeFrom_four (hlow : 65535 < c.val.toNat) :
    decodeFrom place (UInt8.ofNat (c.val.toNat / 262144 % 8 + 240) ::
        UInt8.ofNat (c.val.toNat / 4096 % 64 + 128) :: UInt8.ofNat (c.val.toNat / 64 % 64 + 128) ::
        UInt8.ofNat (c.val.toNat % 64 + 128) :: rest) =
      (decodeFrom (place + 4) rest).map (c :: ·) := by
  have hvalid : c.val.toNat < 0xD800 ∨ 0xDFFF < c.val.toNat ∧ c.val.toNat < 0x110000 := c.valid
  have hsecond : isSecond (c.val.toNat / 262144 % 8 + 240)
      (UInt8.ofNat (c.val.toNat / 4096 % 64 + 128)) := by
    apply isSecond_of_bits
    unfold secondRange
    split_ifs <;> omega
  rw [decodeFrom.eq_def]
  dsimp only
  rw [toNat_byte (by omega)]
  simp only [hsecond, isTail_of_bits, tailBits_of_bits]
  rw [if_neg (by omega), if_neg (by omega), if_neg (by omega), if_neg (by omega),
    if_pos (by omega), if_pos trivial, if_pos trivial, if_pos trivial, ofNat_eq (c := c) (by omega)]

theorem decodeFrom_character (c : Char) : ∃ n,
    decodeFrom place (String.utf8EncodeChar c ++ rest) =
      (decodeFrom (place + n) rest).map (c :: ·) := by
  unfold String.utf8EncodeChar
  dsimp only
  split_ifs with hone htwo hthree
  · exact ⟨1, decodeFrom_one place rest hone⟩
  · exact ⟨2, decodeFrom_two place rest (by omega) htwo⟩
  · exact ⟨3, decodeFrom_three place rest (by omega) hthree⟩
  · exact ⟨4, decodeFrom_four place rest (by omega)⟩

theorem decodeFrom_characters (cs : List Char) :
    decodeFrom place (cs.flatMap String.utf8EncodeChar) = .ok cs := by
  induction cs generalizing place with
  | nil => rfl
  | cons c cs ih =>
      obtain ⟨n, hcharacter⟩ :=
        decodeFrom_character place (cs.flatMap String.utf8EncodeChar) c
      rw [List.flatMap_cons, hcharacter, ih]
      rfl

/-- The bytes of a text are decoded to it. -/
theorem decode_toUTF8 (text : String) : decode text.toUTF8.data.toList = .ok text.toList := by
  have hbytes : text.toUTF8.data.toList = text.toList.flatMap String.utf8EncodeChar := by
    rw [String.toUTF8, ← String.utf8Encode_toList, List.utf8Encode]
    simp
  rw [hbytes]
  exact decodeFrom_characters 0 text.toList

end Reckoner.Text.Utf8
