import Reckoner.Number.Display
import Reckoner.Proofs.Number.Rounding
import Reckoner.Proofs.Scan.Munch

/-!
# Numbers in JSON

A number is spelled by its parts: a minus sign, which may be missing, whole digits without a zero
in front, digits after a point, and an exponent. A number of whole digits alone is an integer; any
other is the double nearest to its decimal. The parts can be told from the text, so that a text is
one number at most.
-/

namespace Reckoner.Json

open Number (Decimal signed)

/-- Where a run of characters of a class ends is told by the text. -/
theorem run_append_inj {p : Char → Bool} {a b r s : List Char} (ha : ∀ c ∈ a, p c = true)
    (hb : ∀ c ∈ b, p c = true) (hr : ∀ c ∈ r.head?, p c = false)
    (hs : ∀ c ∈ s.head?, p c = false) (h : a ++ r = b ++ s) : a = b ∧ r = s := by
  have hspan := span_of_run ha hr
  rw [h, span_of_run hb hs] at hspan
  simpa [eq_comm] using hspan

/-- The characters of names and numbers. -/
def isWord (c : Char) : Bool :=
  c.isAlphanum || c == '+' || c == '-' || c == '.'

theorem isWord_of_isDigit {c : Char} (h : c.isDigit = true) : isWord c = true := by
  simp [isWord, Char.isAlphanum, h]

/-- The number that a run of digits spells. -/
def natural (digits : List Char) : ℕ :=
  Nat.ofDigitChars 10 digits 0

/-! ## Exponents -/

/-- The exponent of a number: a letter, a sign, which may be missing, and one or more digits. -/
structure Exponent where
  letter : Char
  /-- Whether the sign, if there is one, is a minus. -/
  sign : Option Bool
  digits : List Char
  letter_eq : letter = 'e' ∨ letter = 'E'
  digits_ne_nil : digits ≠ []
  isDigit : ∀ c ∈ digits, c.isDigit = true

namespace Exponent

def signText : Option Bool → List Char
  | none => []
  | some false => ['+']
  | some true => ['-']

def text (e : Exponent) : List Char :=
  e.letter :: (signText e.sign ++ e.digits)

def value (e : Exponent) : ℤ :=
  if e.sign = some true then -natural e.digits else natural e.digits

theorem signText_append_inj {s t : Option Bool} {a b : List Char} (hne : a ≠ [])
    (ha : ∀ c ∈ a, c.isDigit = true) (hne' : b ≠ []) (hb : ∀ c ∈ b, c.isDigit = true)
    (h : signText s ++ a = signText t ++ b) : s = t ∧ a = b := by
  obtain ⟨c, a, rfl⟩ := List.exists_cons_of_ne_nil hne
  obtain ⟨d, b, rfl⟩ := List.exists_cons_of_ne_nil hne'
  have hc := ha c List.mem_cons_self
  have hd := hb d List.mem_cons_self
  match s, t with
  | none, none | some false, some false | some true, some true => simpa [signText] using h
  | none, some false | none, some true =>
      obtain ⟨rfl, -⟩ := List.cons.inj h
      cases hc
  | some false, none | some true, none =>
      obtain ⟨rfl, -⟩ := List.cons.inj h
      cases hd
  | some false, some true | some true, some false => simp [signText] at h

theorem text_injective : Function.Injective text := by
  intro e f h
  obtain ⟨hletter, h⟩ := List.cons.inj h
  obtain ⟨hsign, hdigits⟩ :=
    signText_append_inj e.digits_ne_nil e.isDigit f.digits_ne_nil f.isDigit h
  cases e
  cases f
  simp_all only

end Exponent

/-! ## Numerals -/

/-- The parts of a number. An empty fraction means that there is no point. -/
structure Numeral where
  negative : Bool
  whole : List Char
  fraction : List Char
  exponent : Option Exponent
  whole_isDigit : ∀ c ∈ whole, c.isDigit = true
  whole_start : whole = ['0'] ∨ ∃ c cs, whole = c :: cs ∧ c ≠ '0'
  fraction_isDigit : ∀ c ∈ fraction, c.isDigit = true

namespace Numeral

def fractionText (fraction : List Char) : List Char :=
  if fraction = [] then [] else '.' :: fraction

def exponentText (exponent : Option Exponent) : List Char :=
  (exponent.map Exponent.text).getD []

/-- How a number is written. -/
def text (m : Numeral) : List Char :=
  signed m.negative (m.whole ++ (fractionText m.fraction ++ exponentText m.exponent))

/-- The decimal that is written, without the sign. -/
def decimal (m : Numeral) : Decimal where
  digits := natural (m.whole ++ m.fraction)
  exponent := (m.exponent.map Exponent.value).getD 0 - m.fraction.length

/-- The integer or the double that a number stands for. -/
def value (m : Numeral) : ℤ ⊕ Float :=
  if m.fraction = [] ∧ m.exponent = none then
    .inl (if m.negative then -natural m.whole else natural m.whole)
  else
    .inr (if m.negative then -m.decimal.double else m.decimal.double)

/-- Whether a text is a number with the given value. -/
def Reads (text : List Char) (x : ℤ ⊕ Float) : Prop :=
  ∃ m : Numeral, m.text = text ∧ m.value = x

/-! ### The parts are told by the text -/

theorem exponentText_head {exponent : Option Exponent} :
    ∀ c ∈ (exponentText exponent).head?, c.isDigit = false ∧ c ≠ '.' := by
  cases exponent with
  | none => simp [exponentText]
  | some e => rcases e.letter_eq with h | h <;> simp [exponentText, Exponent.text, h]

theorem exponentText_injective : Function.Injective exponentText := by
  intro e f h
  match e, f with
  | none, none => rfl
  | none, some f => simp [exponentText, Exponent.text] at h
  | some e, none => simp [exponentText, Exponent.text] at h
  | some e, some f => rw [Exponent.text_injective h]

theorem fractionText_append_head {a r : List Char}
    (hr : ∀ c ∈ r.head?, c.isDigit = false ∧ c ≠ '.') :
    ∀ c ∈ (fractionText a ++ r).head?, c.isDigit = false := by
  cases a with
  | nil => exact fun c hc => (hr c hc).1
  | cons d a => simp [fractionText]

theorem fractionText_append_inj {a b r s : List Char} (ha : ∀ c ∈ a, c.isDigit = true)
    (hb : ∀ c ∈ b, c.isDigit = true) (hr : ∀ c ∈ r.head?, c.isDigit = false ∧ c ≠ '.')
    (hs : ∀ c ∈ s.head?, c.isDigit = false ∧ c ≠ '.')
    (h : fractionText a ++ r = fractionText b ++ s) : a = b ∧ r = s := by
  match a, b with
  | [], [] => exact ⟨rfl, h⟩
  | [], d :: b =>
      obtain rfl : r = fractionText (d :: b) ++ s := h
      exact absurd rfl (hr '.' rfl).2
  | c :: a, [] =>
      obtain rfl : fractionText (c :: a) ++ r = s := h
      exact absurd rfl (hs '.' rfl).2
  | c :: a, d :: b =>
      exact run_append_inj ha hb (fun c hc => (hr c hc).1) (fun c hc => (hs c hc).1)
        (List.cons.inj h).2

theorem signed_inj {b b' : Bool} {u v : List Char} (hu : '-' ∉ u.head?) (hv : '-' ∉ v.head?)
    (h : signed b u = signed b' v) : b = b' ∧ u = v := by
  match b, b' with
  | false, false => exact ⟨rfl, h⟩
  | true, true => exact ⟨rfl, (List.cons.inj h).2⟩
  | false, true =>
      obtain rfl : u = '-' :: v := h
      exact absurd rfl hu
  | true, false =>
      obtain rfl : '-' :: u = v := h
      exact absurd rfl hv

theorem exists_whole (m : Numeral) : ∃ c cs, m.whole = c :: cs ∧ c.isDigit = true := by
  have hdigit := m.whole_isDigit
  rcases m.whole_start with h | ⟨c, cs, h, -⟩
  · exact ⟨_, _, h, rfl⟩
  · exact ⟨c, cs, h, hdigit c (h ▸ List.mem_cons_self)⟩

theorem minus_notMem_head (m : Numeral) (r : List Char) : '-' ∉ (m.whole ++ r).head? := by
  obtain ⟨c, cs, hwhole, hc⟩ := m.exists_whole
  rw [hwhole]
  rintro ⟨⟩
  cases hc

/-- A text is the text of one number at most. -/
theorem text_injective : Function.Injective text := by
  intro m n h
  obtain ⟨hsign, h⟩ := signed_inj (m.minus_notMem_head _) (n.minus_notMem_head _) h
  obtain ⟨hwhole, h⟩ := run_append_inj m.whole_isDigit n.whole_isDigit
    (fractionText_append_head exponentText_head) (fractionText_append_head exponentText_head) h
  obtain ⟨hfraction, h⟩ := fractionText_append_inj m.fraction_isDigit n.fraction_isDigit
    exponentText_head exponentText_head h
  have hexponent := exponentText_injective h
  cases m
  cases n
  simp_all only

theorem Reads.unique {text : List Char} {x y : ℤ ⊕ Float} (hx : Reads text x)
    (hy : Reads text y) : x = y := by
  obtain ⟨m, hm, rfl⟩ := hx
  obtain ⟨n, rfl, rfl⟩ := hy
  rw [text_injective hm]

/-! ### The characters of a number -/

theorem isWord_signText (sign : Option Bool) : ∀ c ∈ Exponent.signText sign, isWord c = true := by
  match sign with
  | none | some false | some true => exact List.all_eq_true.1 rfl

theorem isWord_exponentText {exponent : Option Exponent} :
    ∀ c ∈ exponentText exponent, isWord c = true := by
  intro c hc
  cases exponent with
  | none => cases hc
  | some e =>
      rcases List.mem_cons.1 hc with rfl | hc
      · rcases e.letter_eq with h | h <;> rw [h] <;> rfl
      · rcases List.mem_append.1 hc with hc | hc
        · exact isWord_signText e.sign c hc
        · exact isWord_of_isDigit (e.isDigit c hc)

theorem isWord_fractionText {fraction : List Char} (h : ∀ c ∈ fraction, c.isDigit = true) :
    ∀ c ∈ fractionText fraction, isWord c = true := by
  intro c hc
  rw [fractionText] at hc
  split_ifs at hc
  · cases hc
  · rcases List.mem_cons.1 hc with rfl | hc
    · rfl
    · exact isWord_of_isDigit (h c hc)

/-- A number is a word that begins with a minus sign or a digit. -/
theorem exists_text (m : Numeral) :
    ∃ c cs, m.text = c :: cs ∧ (c = '-' ∨ c.isDigit = true) ∧ ∀ d ∈ m.text, isWord d = true := by
  obtain ⟨c, cs, hwhole, hc⟩ := m.exists_whole
  have hword : ∀ d ∈ m.whole ++ (fractionText m.fraction ++ exponentText m.exponent),
      isWord d = true := by
    intro d hd
    rcases List.mem_append.1 hd with hd | hd
    · exact isWord_of_isDigit (m.whole_isDigit d hd)
    · rcases List.mem_append.1 hd with hd | hd
      · exact isWord_fractionText m.fraction_isDigit d hd
      · exact isWord_exponentText d hd
  rw [text, hwhole] at *
  cases m.negative with
  | false => exact ⟨_, _, rfl, .inr hc, hword⟩
  | true => exact ⟨_, _, rfl, .inl rfl, List.forall_mem_cons.2 ⟨rfl, hword⟩⟩

end Numeral

end Reckoner.Json
