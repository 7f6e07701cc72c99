import Reckoner.Proofs.Text.Classes
import Reckoner.Text.Quoted

/-!
# Texts that are quoted as they are

A printable character other than the quote and the backslash stands for itself between quotes. All
letters and numerals are printable, which is seen by going through the intervals of both classes at
once, so a word is quoted by putting a quote at both ends.
-/

namespace Reckoner.Text

/-! ## Classes within classes -/

namespace Ranges

/-- Whether every interval of the first class lies in one of the second, both being ascending. -/
def within : Ranges → Ranges → Bool
  | [], _ => true
  | x :: xs, ys =>
    let later := ys.dropWhile fun y => Nat.blt y.2 x.1
    (later.head?.any fun y => Nat.ble y.1 x.1 && Nat.ble x.2 y.2) && within xs later

theorem within_of_mem {xs ys : Ranges} (h : within xs ys = true) {x : Nat × Nat} (hx : x ∈ xs) :
    ∃ y ∈ ys, y.1 ≤ x.1 ∧ x.2 ≤ y.2 := by
  induction xs generalizing ys with
  | nil => cases hx
  | cons first xs ih =>
      rw [within, Bool.and_eq_true] at h
      obtain ⟨hhead, hrest⟩ := h
      have hlater := List.dropWhile_subset (l := ys) fun y => Nat.blt y.2 first.1
      rcases List.mem_cons.mp hx with rfl | hx
      · cases hdrop : ys.dropWhile fun y => Nat.blt y.2 x.1 with
        | nil => simp [hdrop] at hhead
        | cons y rest =>
            rw [hdrop] at hhead hlater
            exact ⟨y, hlater List.mem_cons_self, by simpa using hhead⟩
      · obtain ⟨y, hy, hinside⟩ := ih hrest hx
        exact ⟨y, hlater hy, hinside⟩

theorem contains_of_within {xs ys : Ranges} (h : within xs ys = true) {n : Nat}
    (hn : xs.contains n = true) : ys.contains n = true := by
  simp only [contains, List.any_eq_true, holds, Bool.and_eq_true, decide_eq_true_iff] at hn ⊢
  obtain ⟨x, hx, hle, hge⟩ := hn
  obtain ⟨y, hy, hlow, hhigh⟩ := within_of_mem h hx
  exact ⟨y, hy, hlow.trans hle, hge.trans hhigh⟩

end Ranges

theorem words_within_printable :
    letterRanges.within printableRanges = true ∧ numeralRanges.within printableRanges = true := by
  decide +kernel

variable {c : Char} {cs ds : List Char}

theorem isPrintable_of_isWordAhead (h : isWordAhead (some c) = true) : isPrintable c = true := by
  simp only [isWordAhead, Bool.or_eq_true, beq_iff_eq] at h
  rcases h with (h | h) | rfl
  · exact Ranges.contains_of_within words_within_printable.1 h
  · exact Ranges.contains_of_within words_within_printable.2 h
  · rfl

/-! ## Characters that stand for themselves -/

/-- Whether a character stands for itself between apostrophes. -/
def isClear (c : Char) : Bool :=
  isPrintable c && c != apostrophe && c != '\\'

theorem isClear_controls :
    isClear '\n' = false ∧ isClear '\r' = false ∧ isClear '\t' = false := by
  decide +kernel

theorem ne_of_isClear (h : isClear c = true) {d : Char} (hd : isClear d = false) : c ≠ d := by
  rintro rfl
  rw [h] at hd
  cases hd

theorem isClear_of_isWordAhead (h : isWordAhead (some c) = true) : isClear c = true := by
  have hexcluded : isWordAhead (some apostrophe) = false ∧ isWordAhead (some '\\') = false := by
    decide +kernel
  rw [isClear, isPrintable_of_isWordAhead h, Bool.true_and, Bool.and_eq_true, bne_iff_ne,
    bne_iff_ne]
  constructor
  · rintro rfl
    simp [hexcluded.1] at h
  · rintro rfl
    simp [hexcluded.2] at h

/-- Every sign of punctuation but the newline stands for itself. -/
theorem isClear_of_punctuation? {kind : Token.Kind} (h : punctuation? c = some kind)
    (hne : c ≠ '\n') : isClear c = true := by
  unfold punctuation? at h
  split at h <;> first | contradiction | rfl

theorem escaped_of_isClear (h : isClear c = true) : escaped apostrophe c = [c] := by
  obtain ⟨hnewline, hreturn, htab⟩ := isClear_controls
  have hnewline := ne_of_isClear h hnewline
  have hreturn := ne_of_isClear h hreturn
  have htab := ne_of_isClear h htab
  rw [isClear, Bool.and_eq_true, Bool.and_eq_true, bne_iff_ne, bne_iff_ne] at h
  simp [escaped, h, hnewline, hreturn, htab]

theorem quotedChars_of_isClear (h : ∀ c ∈ cs, isClear c = true) :
    quotedChars cs = apostrophe :: cs ++ [apostrophe] := by
  have hquote : quoteFor cs = apostrophe := by
    have habsent : cs.contains apostrophe = false := by
      rw [List.contains_eq_mem, decide_eq_false_iff_not]
      intro hmem
      exact ne_of_isClear (h _ hmem) (by simp [isClear]) rfl
    rw [quoteFor, habsent]
    rfl
  have hbody : cs.flatMap (escaped apostrophe) = cs := by
    rw [List.flatMap_congr fun c hc => escaped_of_isClear (h c hc)]
    exact List.flatMap_singleton' cs
  simp only [quotedChars, hquote, hbody]

end Reckoner.Text
