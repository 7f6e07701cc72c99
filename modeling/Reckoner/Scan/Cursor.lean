import Reckoner.Scan.Error

/-!
# Cursors

A cursor is a place in a text together with its line and column. It moves forward one character
at a time. A cursor may be started anywhere, also before the text, where looking ahead finds no
character while reading counts from the end of the text.

The main facts are that reading a character leaves fewer characters to read, and that a run of
characters read by `takeWhile` never moves the cursor back.
-/

namespace Reckoner

/-- A place in a text. -/
structure Cursor where
  text : Array Char
  position : Int
  line : Int
  column : Int
  deriving DecidableEq, Repr

namespace Cursor

/-- The start of a text. -/
def start (source : String) : Cursor :=
  ⟨source.toList.toArray, 0, 1, 1⟩

/-- Line and column of the cursor. -/
def pos (c : Cursor) : Position :=
  ⟨c.line, c.column⟩

/-- Whether the text ends at or before the cursor. -/
def atEnd (c : Cursor) : Bool :=
  decide ((c.text.size : Int) ≤ c.position)

/-- How far the end of the text is. -/
def remaining (c : Cursor) : Nat :=
  ((c.text.size : Int) - c.position).toNat

/-- The character at an index of the text. -/
def charAt? (c : Cursor) (index : Int) : Option Char :=
  if index < 0 then none else c.text[index.toNat]?

/-- The character some way after the cursor, which stays in place. -/
def peek (c : Cursor) (offset : Int) : Option Char :=
  c.charAt? (c.position + offset)

/-- The character that is read next. Before the text it is counted from the end of the text. -/
def facing? (c : Cursor) : Option Char :=
  c.charAt? (if c.position < 0 then c.position + c.text.size else c.position)

/-- The cursor after reading the given character: a newline starts a new line. -/
def step (c : Cursor) (character : Char) : Cursor :=
  if character == '\n' then ⟨c.text, c.position + 1, c.line + 1, 1⟩
  else ⟨c.text, c.position + 1, c.line, c.column + 1⟩

/-- Reads one character. -/
def next (c : Cursor) : Except ScanError (Char × Cursor) :=
  if c.atEnd then .error (.pastEnd c.position c.line)
  else
    match c.facing? with
    | some character => .ok (character, c.step character)
    | none => .error (.outOfRange c.position)

theorem remaining_step_lt {c : Cursor} (character : Char) (h : c.atEnd = false) :
    (c.step character).remaining < c.remaining := by
  simp only [atEnd, decide_eq_false_iff_not] at h
  unfold step remaining
  split <;> dsimp only <;> omega

theorem next_eq_ok {c d : Cursor} {character : Char} (h : c.next = .ok (character, d)) :
    c.atEnd = false ∧ d = c.step character := by
  unfold next at h
  split at h
  · cases h
  · split at h
    · cases h
      exact ⟨by simpa using ‹¬c.atEnd = true›, rfl⟩
    · cases h

theorem remaining_lt_of_next {c d : Cursor} {character : Char}
    (h : c.next = .ok (character, d)) : d.remaining < c.remaining := by
  obtain ⟨hEnd, rfl⟩ := next_eq_ok h
  exact remaining_step_lt character hEnd

/-- Reads characters as long as the character ahead is of the given class. The class also says
whether to read on where no character is ahead. -/
def takeWhile (p : Option Char → Bool) (c : Cursor) : Except ScanError (List Char) × Cursor :=
  if c.atEnd || !p (c.peek 0) then (.ok [], c)
  else
    match _h : c.next with
    | .error e => (.error e, c)
    | .ok (character, d) =>
      match takeWhile p d with
      | (.ok characters, e) => (.ok (character :: characters), e)
      | (.error problem, e) => (.error problem, e)
termination_by c.remaining
decreasing_by exact remaining_lt_of_next _h

theorem remaining_takeWhile_le (p : Option Char → Bool) (c : Cursor) :
    (c.takeWhile p).2.remaining ≤ c.remaining := by
  fun_induction takeWhile p c with
  | case1 => exact Nat.le_refl _
  | case2 => exact Nat.le_refl _
  | case3 c _ character d h characters e hTake ih =>
    rw [hTake] at ih
    exact Nat.le_trans ih (Nat.le_of_lt (remaining_lt_of_next h))
  | case4 c _ character d h problem e hTake ih =>
    rw [hTake] at ih
    exact Nat.le_trans ih (Nat.le_of_lt (remaining_lt_of_next h))

/-- A run that starts with a character of its class is not empty. -/
theorem remaining_takeWhile_lt {p : Option Char → Bool} {c d : Cursor} {characters : List Char}
    (hEnd : c.atEnd = false) (hp : p (c.peek 0) = true)
    (h : c.takeWhile p = (.ok characters, d)) : d.remaining < c.remaining := by
  rw [takeWhile] at h
  simp only [hEnd, hp, Bool.not_true, Bool.or_self, Bool.false_eq_true, if_false] at h
  split at h
  · simp at h
  · next character e hNext =>
    have hLess := remaining_lt_of_next hNext
    have hRest := remaining_takeWhile_le p e
    split at h
    · next hTake =>
      rw [hTake] at hRest
      cases h
      exact Nat.lt_of_le_of_lt hRest hLess
    · simp at h

/-- A character ahead means that the text has not ended. -/
theorem atEnd_eq_false_of_peek {c : Cursor} {character : Char} (h : c.peek 0 = some character) :
    c.atEnd = false := by
  unfold peek charAt? at h
  split at h
  · cases h
  · have hLess := (Array.getElem?_eq_some_iff.1 h).1
    simp only [atEnd, decide_eq_false_iff_not]
    omega

end Cursor

end Reckoner
