import Reckoner.Text.Newline

/-!
# Normalized line ends

Normalizing a text leaves all characters alone but carriage returns, so what stands before the first
of them can be split off, and a normalized text starts as the text does unless it starts with a
newline.
-/

namespace Reckoner.Text

/-- Whether every carriage return has a newline right after it. -/
def ReturnsPaired (text : List Char) : Prop :=
  ∀ i < text.length, text[i]? = some '\r' → text[i + 1]? = some '\n'

instance (text : List Char) : Decidable (ReturnsPaired text) :=
  inferInstanceAs (Decidable (∀ i < text.length, text[i]? = some '\r' → text[i + 1]? = some '\n'))

variable {xs ys text : List Char}

theorem ReturnsPaired.of_append (h : ReturnsPaired (xs ++ ys)) : ReturnsPaired ys := by
  intro i hi hreturn
  have hlater := h (xs.length + i) (by rw [List.length_append]; omega)
  rw [Nat.add_assoc, List.getElem?_append_right (Nat.le_add_right _ _),
    List.getElem?_append_right (Nat.le_add_right _ _), Nat.add_sub_cancel_left,
    Nat.add_sub_cancel_left] at hlater
  exact hlater hreturn

theorem ReturnsPaired.head? (h : ReturnsPaired ('\r' :: text)) : text.head? = some '\n' := by
  have hnext := h 0 (Nat.zero_lt_succ _) rfl
  rwa [Nat.zero_add, List.getElem?_cons_succ, ← List.head?_eq_getElem?] at hnext

theorem normalizeNewlines_append (h : '\r' ∉ xs) (ys : List Char) :
    normalizeNewlines (xs ++ ys) = xs ++ normalizeNewlines ys := by
  induction xs with
  | nil => rfl
  | cons c xs ih =>
      rw [List.mem_cons, not_or] at h
      rw [List.cons_append, normalizeNewlines, ih h.2, List.cons_append]
      · rintro - rfl
        exact absurd rfl h.1
      · rintro rfl
        exact absurd rfl h.1

/-- A normalized text starts with the first character of the text, or with a newline. -/
theorem forall_head?_normalizeNewlines {P : Char → Prop} (h : ∀ c ∈ text.head?, P c)
    (hnewline : P '\n') : ∀ c ∈ (normalizeNewlines text).head?, P c := by
  fun_cases normalizeNewlines text with
  | case1 => simp
  | case2 rest => simpa using hnewline
  | case3 rest _ => simpa using hnewline
  | case4 c rest _ _ => simpa using h

theorem normalizeNewlines_of_not_mem (h : '\r' ∉ text) : normalizeNewlines text = text := by
  have hwhole := normalizeNewlines_append h []
  rwa [List.append_nil, normalizeNewlines, List.append_nil] at hwhole

end Reckoner.Text
