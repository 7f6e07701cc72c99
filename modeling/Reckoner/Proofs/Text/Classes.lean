import Mathlib.Data.List.Chain
import Mathlib.Data.List.TakeWhile
import Reckoner.Scan.Lexeme
import Reckoner.Text.Blank

/-!
# Classes of characters that exclude each other

The scanner finds out from a single character what starts there. This works because the classes
have nothing in common: a digit starts no word, a punctuation character stands in no word and no
number, and a blank of any kind, newlines apart, belongs to no token at all.

Classes are given by hundreds of intervals in ascending order. Two of them are compared by going
through both at once.
-/

namespace Reckoner

namespace Text

namespace Ranges

def Ascending (xs : Ranges) : Prop :=
  xs.IsChain fun x y => x.1 ≤ y.1

instance (xs : Ranges) : Decidable xs.Ascending :=
  inferInstanceAs (Decidable (List.IsChain _ xs))

/-- Whether no interval of the first class meets one of the second, both being ascending. -/
def apart : Ranges → Ranges → Bool
  | [], _ => true
  | x :: xs, ys =>
    let later := ys.dropWhile fun y => Nat.blt y.2 x.1
    (later.head?.all fun y => Nat.blt x.2 y.1) && apart xs later

theorem Ascending.pairwise {xs : Ranges} (h : xs.Ascending) :
    xs.Pairwise fun x y => x.1 ≤ y.1 :=
  haveI : IsTrans (Nat × Nat) fun x y => x.1 ≤ y.1 := ⟨fun _ _ _ => Nat.le_trans⟩
  List.isChain_iff_pairwise.mp h

theorem apart_of_mem {xs ys : Ranges} (h : apart xs ys = true)
    (hxs : xs.Pairwise fun x y => x.1 ≤ y.1) (hys : ys.Pairwise fun x y => x.1 ≤ y.1)
    {x y : Nat × Nat} (hx : x ∈ xs) (hy : y ∈ ys) : x.2 < y.1 ∨ y.2 < x.1 := by
  induction xs generalizing ys with
  | nil => cases hx
  | cons first xs ih =>
      rw [apart, Bool.and_eq_true] at h
      obtain ⟨hhead, hrest⟩ := h
      obtain ⟨hfirst, hxs⟩ := List.pairwise_cons.mp hxs
      have hlater := hys.sublist (List.dropWhile_sublist fun y => Nat.blt y.2 first.1)
      -- An interval that is passed over ends before the first one, and so before all.
      rw [← List.takeWhile_append_dropWhile (p := fun y => Nat.blt y.2 first.1) (l := ys),
        List.mem_append] at hy
      rcases hy with hy | hy
      · have hbefore : y.2 < first.1 := by simpa using (List.mem_takeWhile_imp hy)
        rcases List.mem_cons.mp hx with rfl | hx
        · exact Or.inr hbefore
        · exact Or.inr (Nat.lt_of_lt_of_le hbefore (hfirst x hx))
      · rcases List.mem_cons.mp hx with rfl | hx
        · cases hdrop : ys.dropWhile fun y => Nat.blt y.2 x.1 with
          | nil => simp [hdrop] at hy
          | cons next rest =>
              rw [hdrop] at hhead hlater hy
              have hnext : x.2 < next.1 := by simpa using hhead
              rcases List.mem_cons.mp hy with rfl | hy
              · exact Or.inl hnext
              · exact Or.inl (Nat.lt_of_lt_of_le hnext ((List.pairwise_cons.mp hlater).1 y hy))
        · exact ih hrest hxs hlater hx hy

theorem contains_of_apart {xs ys : Ranges} (h : apart xs ys = true) (hxs : xs.Ascending)
    (hys : ys.Ascending) {n : Nat} (hn : xs.contains n = true) : ys.contains n = false := by
  simp only [contains, List.any_eq_true, holds, Bool.and_eq_true, decide_eq_true_iff] at hn
  obtain ⟨x, hx, hle, hge⟩ := hn
  simp only [contains, List.any_eq_false, holds, Bool.and_eq_true, decide_eq_true_iff]
  rintro y hy ⟨hle', hge'⟩
  rcases apart_of_mem h hxs.pairwise hys.pairwise hx hy with hlt | hlt <;> omega

/-- Whether two classes in ascending order have nothing in common. -/
def Exclude (xs ys : Ranges) : Prop :=
  xs.Ascending ∧ ys.Ascending ∧ apart xs ys = true

instance (xs ys : Ranges) : Decidable (xs.Exclude ys) :=
  inferInstanceAs (Decidable (_ ∧ _))

theorem Exclude.contains {xs ys : Ranges} (h : xs.Exclude ys) {n : Nat}
    (hn : xs.contains n = true) : ys.contains n = false :=
  contains_of_apart h.2.2 h.1 h.2.1 hn

/-- Whether a class has nothing in common with the characters of numbers and words. -/
structure ExcludeTokens (xs : Ranges) : Prop where
  letters : xs.Exclude letterRanges
  numerals : xs.Exclude numeralRanges
  decimals : xs.Exclude decimalRanges
  digits : xs.Exclude compatibilityDigitRanges
  mark : xs.contains '_'.toNat = false

end Ranges

variable {c : Char}

theorem isDigit_of_decimalValue? {d : Nat} (h : decimalValue? c = some d) :
    isDigit c = true := by
  obtain ⟨range, hrange, -⟩ := Option.map_eq_some_iff.mp h
  rw [isDigit, isDecimal, Ranges.contains_eq_isSome_find?, hrange]
  rfl

theorem digits_exclude : decimalRanges.Exclude letterRanges ∧
    compatibilityDigitRanges.Exclude letterRanges ∧ isDigit '_' = false := by
  decide +kernel

theorem isLetter_of_isDigit (h : isDigit c = true) : isLetter c = false := by
  rw [isDigit, Bool.or_eq_true] at h
  rcases h with h | h
  · exact digits_exclude.1.contains h
  · exact digits_exclude.2.1.contains h

section Plain

variable {xs : Ranges} (hxs : xs.ExcludeTokens) (h : xs.contains c.toNat = true)

include hxs h

theorem isWordAhead_of_excludeTokens : isWordAhead (some c) = false := by
  have hne : c ≠ '_' := by
    rintro rfl
    rw [hxs.mark] at h
    cases h
  simp only [isWordAhead, isLetter, isNumeral, Bool.or_eq_false_iff, beq_eq_false_iff_ne]
  exact ⟨⟨hxs.letters.contains h, hxs.numerals.contains h⟩, hne⟩

theorem isDigit_of_excludeTokens : isDigit c = false := by
  rw [isDigit, isDecimal, Bool.or_eq_false_iff]
  exact ⟨hxs.decimals.contains h, hxs.digits.contains h⟩

end Plain

end Text

open Text (isDigit isBlank Ranges)

variable {c : Char}

/-! ## Blanks -/

theorem excludeTokens_blankRanges : Text.blankRanges.ExcludeTokens := by
  have hall : Text.blankRanges.Exclude Text.letterRanges ∧
      Text.blankRanges.Exclude Text.numeralRanges ∧ Text.blankRanges.Exclude Text.decimalRanges ∧
      Text.blankRanges.Exclude Text.compatibilityDigitRanges := by
    decide +kernel
  exact ⟨hall.1, hall.2.1, hall.2.2.1, hall.2.2.2, by decide⟩

theorem isWordAhead_of_isBlank (h : isBlank c = true) : isWordAhead (some c) = false :=
  Text.isWordAhead_of_excludeTokens excludeTokens_blankRanges h

theorem isDigit_of_isBlank (h : isBlank c = true) : isDigit c = false :=
  Text.isDigit_of_excludeTokens excludeTokens_blankRanges h

/-! ## Signs -/

/-- Code points of the punctuation characters, of the characters between tokens, and of the marks
for comments and for decimal fractions. -/
def signRanges : Ranges :=
  [(0x9, 0xa), (0xd, 0xd), (0x20, 0x21), (0x23, 0x23), (0x28, 0x2b), (0x2d, 0x2f), (0x3b, 0x3b),
    (0x3d, 0x3d), (0x5e, 0x5e)]

def isSign (c : Char) : Bool :=
  signRanges.contains c.toNat

theorem excludeTokens_signRanges : signRanges.ExcludeTokens := by
  have hall : signRanges.Exclude Text.letterRanges ∧ signRanges.Exclude Text.numeralRanges ∧
      signRanges.Exclude Text.decimalRanges ∧
      signRanges.Exclude Text.compatibilityDigitRanges := by
    decide +kernel
  exact ⟨hall.1, hall.2.1, hall.2.2.1, hall.2.2.2, by decide⟩

theorem isWordAhead_of_isSign (h : isSign c = true) : isWordAhead (some c) = false :=
  Text.isWordAhead_of_excludeTokens excludeTokens_signRanges h

theorem isDigit_of_isSign (h : isSign c = true) : isDigit c = false :=
  Text.isDigit_of_excludeTokens excludeTokens_signRanges h

theorem startsWord_of_isWordAhead (h : isWordAhead (some c) = false) : startsWord c = false := by
  simp only [isWordAhead, Bool.or_eq_false_iff] at h
  rw [startsWord, h.1.1, h.2]
  rfl

theorem startsWord_of_isDigit (h : isDigit c = true) : startsWord c = false := by
  rw [startsWord, Text.isLetter_of_isDigit h, Bool.false_or, beq_eq_false_iff_ne]
  rintro rfl
  rw [Text.digits_exclude.2.2] at h
  cases h

theorem isSign_of_punctuation? {kind : Token.Kind} (h : punctuation? c = some kind) :
    isSign c = true := by
  unfold punctuation? at h
  split at h <;> first | rfl | cases h

end Reckoner
