import Reckoner.Proofs.Json.Grammar

/-!
# Texts as JSON strings

A text is a string of its UTF-16 code units, and it can be told from them. What is written for a
text between quotation marks is that string: characters outside printable ASCII are given by the
hexadecimal digits of their code units, two of them beyond the first plane.
-/

namespace Reckoner.Json

open Text (quotationMark hexadecimal)

/-! ## Code units -/

/-- The UTF-16 code units of a text. -/
def units (text : String) : List ℕ :=
  text.toList.flatMap codeUnits

theorem toNat_cases (c : Char) :
    c.toNat < 0xD800 ∨ 0xDFFF < c.toNat ∧ c.toNat < 0x110000 :=
  c.valid

/-- The units of a character end where the character ends: no unit of the first plane is one half
of a surrogate pair. -/
theorem codeUnits_append_inj {c d : Char} {r s : List ℕ}
    (h : codeUnits c ++ r = codeUnits d ++ s) : c = d ∧ r = s := by
  have hc := toNat_cases c
  have hd := toNat_cases d
  have hcode : c.toNat = d.toNat ∧ r = s := by
    rw [codeUnits, codeUnits] at h
    split_ifs at h <;> simp only [List.cons_append, List.nil_append, List.cons.injEq] at h
    · exact h
    · omega
    · omega
    · exact ⟨by omega, h.2.2⟩
  exact ⟨Char.toNat_inj.1 hcode.1, hcode.2⟩

theorem codeUnits_ne_nil (c : Char) : codeUnits c ≠ [] := by
  rw [codeUnits]
  split_ifs <;> simp

theorem flatMap_codeUnits_injective {a b : List Char}
    (h : a.flatMap codeUnits = b.flatMap codeUnits) : a = b := by
  induction a generalizing b with
  | nil =>
      cases b with
      | nil => rfl
      | cons d b => simp [codeUnits_ne_nil] at h
  | cons c a ih =>
      cases b with
      | nil => simp [codeUnits_ne_nil] at h
      | cons d b =>
          obtain ⟨rfl, hrest⟩ := codeUnits_append_inj h
          rw [ih hrest]

theorem units_injective : Function.Injective units :=
  fun _ _ h => String.toList_inj.1 (flatMap_codeUnits_injective h)

/-! ## Hexadecimal digits -/

theorem hexDigit?_digitChar {n : ℕ} (h : n < 16) : hexDigit? n.digitChar = some n := by
  revert n
  decide

theorem hexValue?_append_digitChar {digits : List Char} {value n : ℕ} (hn : n < 16)
    (h : hexValue? digits = some value) :
    hexValue? (digits ++ [n.digitChar]) = some (16 * value + n) := by
  simp only [hexValue?] at h ⊢
  simp [List.foldlM_append, h, hexDigit?_digitChar hn]

theorem hexValue?_toDigits (n : ℕ) : hexValue? (Nat.toDigits 16 n) = some n := by
  induction n using Nat.strong_induction_on with
  | h n ih =>
    rcases Nat.lt_or_ge n 16 with hlt | hge
    · rw [Nat.toDigits_of_lt_base hlt]
      simp [hexValue?, hexDigit?_digitChar hlt]
    · rw [Nat.toDigits_of_base_le (by decide) hge,
        hexValue?_append_digitChar (Nat.mod_lt n (by decide)) (ih (n / 16) (by omega)),
        Nat.div_add_mod]

theorem hexValue?_zeros_append (k : ℕ) (digits : List Char) :
    hexValue? (List.replicate k '0' ++ digits) = hexValue? digits := by
  induction k with
  | zero => rfl
  | succ k ih =>
    have hzero : hexDigit? '0' = some 0 := by decide
    rw [List.replicate_succ, List.cons_append, ← ih]
    simp [hexValue?, hzero]

/-! ## Strings as they are written -/

theorem piece_unit {n : ℕ} (h : n < 0x10000) : Piece [n] (Text.Json.unit n) := by
  have hlength : (Nat.toDigits 16 n).length ≤ 4 :=
    (Nat.length_toDigits_le_iff (by decide) (by decide)).2 h
  refine .unit ?_ ?_
  · simp only [hexadecimal, List.length_append, List.length_replicate]
    omega
  · rw [hexadecimal, hexValue?_zeros_append, hexValue?_toDigits]

theorem Body.append {us vs : List ℕ} {a b : List Char} (ha : Body us a) (hb : Body vs b) :
    Body (us ++ vs) (a ++ b) := by
  induction ha with
  | nil => exact hb
  | cons hpiece _ ih =>
      rw [List.append_assoc, List.append_assoc]
      exact .cons hpiece ih

theorem Piece.body {us : List ℕ} {a : List Char} (h : Piece us a) : Body us a := by
  simpa using Body.cons h .nil

theorem body_units (c : Char) : Body (codeUnits c) (Text.Json.units c.toNat) := by
  have hc := toNat_cases c
  rw [codeUnits, Text.Json.units]
  split_ifs with hplane
  · exact (piece_unit hplane).body
  · exact .cons (piece_unit (by omega)) (piece_unit (by omega)).body

theorem body_escape {c d : Char} {n : ℕ} (hunits : codeUnits c = [n])
    (hescape : escape? d = some n) : Body (codeUnits c) ['\\', d] := by
  rw [hunits]
  exact (Piece.escape hescape).body

theorem body_escaped (c : Char) : Body (codeUnits c) (Text.Json.escaped c) := by
  rw [Text.Json.escaped]
  split_ifs with hquote hslash hfeed hreturn htab hback hpage hplain
  · exact body_escape (by rw [eq_of_beq hquote]; rfl) rfl
  · exact body_escape (by rw [eq_of_beq hslash]; rfl) rfl
  · exact body_escape (by rw [eq_of_beq hfeed]; rfl) rfl
  · exact body_escape (by rw [eq_of_beq hreturn]; rfl) rfl
  · exact body_escape (by rw [eq_of_beq htab]; rfl) rfl
  · exact body_escape (by rw [eq_of_beq hback]; rfl) rfl
  · exact body_escape (by rw [eq_of_beq hpage]; rfl) rfl
  · exact (Piece.plain hplain.1 (by simpa using hquote) (by simpa using hslash)).body
  · exact body_units c

theorem body_flatMap_escaped (cs : List Char) :
    Body (cs.flatMap codeUnits) (cs.flatMap Text.Json.escaped) := by
  induction cs with
  | nil => exact .nil
  | cons c cs ih => exact (body_escaped c).append ih

/-- What is written for a text is the string of its code units. -/
theorem spells_string {ν : Type} (N : List Char → ν → Prop) (text : String) :
    Spells N (.string (units text)) (Text.Json.string text).toList := by
  rw [Text.Json.string, String.toList_ofList]
  exact .string (body_flatMap_escaped text.toList)

end Reckoner.Json
