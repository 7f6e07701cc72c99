import Mathlib.Data.List.TakeWhile
import Reckoner.Scan.Lexeme

/-!
# The text ahead of a cursor

A cursor inside a text is described by the characters ahead of it and by its position. Reading
takes characters off the text ahead, and the position moves over them. The loops of the scanner
become the usual operations on lists of characters.
-/

namespace Reckoner

namespace Position

/-- The position after a character. -/
def step (p : Position) (c : Char) : Position :=
  if c = '\n' then ⟨p.line + 1, 1⟩ else ⟨p.line, p.col + 1⟩

/-- The position after some characters. -/
def past (p : Position) (cs : List Char) : Position :=
  cs.foldl step p

@[simp] theorem past_nil (p : Position) : p.past [] = p := rfl

@[simp] theorem past_cons (p : Position) (c : Char) (cs : List Char) :
    p.past (c :: cs) = (p.step c).past cs := rfl

theorem past_append (p : Position) (cs ds : List Char) :
    p.past (cs ++ ds) = (p.past cs).past ds :=
  List.foldl_append

end Position

/-- Every list starts with a longest run of elements of a class. -/
theorem exists_longest_run (p : Char → Bool) (cs : List Char) :
    ∃ run rest, cs = run ++ rest ∧ (∀ c ∈ run, p c = true) ∧ ∀ c ∈ rest.head?, p c = false := by
  refine ⟨cs.takeWhile p, cs.dropWhile p, List.takeWhile_append_dropWhile.symm,
    fun c hc => List.mem_takeWhile_imp hc, fun c hc => ?_⟩
  have hhead := List.head?_dropWhile_not p cs
  rw [Option.mem_def.mp hc] at hhead
  exact hhead

theorem takeWhile_of_run {p : Char → Bool} {run rest : List Char}
    (hrun : ∀ c ∈ run, p c = true) (hrest : ∀ c ∈ rest.head?, p c = false) :
    (run ++ rest).takeWhile p = run := by
  have hnone : rest.takeWhile p = [] := by
    cases rest with
    | nil => rfl
    | cons c rest => rw [List.takeWhile_cons, hrest c rfl]; rfl
  rw [List.takeWhile_append_of_pos hrun, hnone, List.append_nil]

namespace Cursor

variable {c : Cursor} {character : Char} {cs rest : List Char}

/-- The characters from the cursor on. -/
def ahead (c : Cursor) : List Char :=
  c.text.toList.drop c.position.toNat

/-- The cursor after reading some characters. -/
def past (c : Cursor) (cs : List Char) : Cursor :=
  cs.foldl step c

@[simp] theorem past_nil (c : Cursor) : c.past [] = c := rfl

@[simp] theorem past_cons (c : Cursor) (character : Char) (cs : List Char) :
    c.past (character :: cs) = (c.step character).past cs := rfl

theorem past_append (c : Cursor) (cs ds : List Char) : c.past (cs ++ ds) = (c.past cs).past ds :=
  List.foldl_append

@[simp] theorem text_step (c : Cursor) (character : Char) : (c.step character).text = c.text := by
  unfold step
  split <;> rfl

@[simp] theorem position_step (c : Cursor) (character : Char) :
    (c.step character).position = c.position + 1 := by
  unfold step
  split <;> rfl

@[simp] theorem pos_step (c : Cursor) (character : Char) :
    (c.step character).pos = c.pos.step character := by
  unfold step Position.step
  by_cases h : character = '\n' <;> simp [h, pos]

theorem position_past (c : Cursor) (cs : List Char) :
    (c.past cs).position = c.position + cs.length := by
  induction cs generalizing c with
  | nil => simp
  | cons character cs ih =>
      rw [past_cons, ih, position_step, List.length_cons]
      omega

@[simp] theorem pos_past (c : Cursor) (cs : List Char) : (c.past cs).pos = c.pos.past cs := by
  induction cs generalizing c with
  | nil => rfl
  | cons character cs ih => rw [past_cons, ih, pos_step, Position.past_cons]

theorem inside_past (h : 0 ≤ c.position) (cs : List Char) : 0 ≤ (c.past cs).position := by
  rw [position_past]
  omega

theorem ahead_step (h : 0 ≤ c.position) (hahead : c.ahead = character :: rest) :
    (c.step character).ahead = rest := by
  have hnext : (c.position + 1).toNat = 1 + c.position.toNat := by omega
  rw [ahead, text_step, position_step, hnext, Nat.add_comm, ← List.drop_drop]
  unfold ahead at hahead
  rw [hahead]
  rfl

theorem ahead_past (h : 0 ≤ c.position) (hahead : c.ahead = cs ++ rest) :
    (c.past cs).ahead = rest := by
  induction cs generalizing c with
  | nil => exact hahead
  | cons character cs ih =>
      refine ih ?_ (ahead_step h hahead)
      rw [position_step]
      omega

theorem peek_eq (h : 0 ≤ c.position) (k : Nat) : c.peek k = c.ahead[k]? := by
  have hnonneg : ¬ c.position + k < 0 := by omega
  have hindex : (c.position + k).toNat = c.position.toNat + k := by omega
  rw [peek, charAt?, if_neg hnonneg, hindex, ahead, List.getElem?_drop, Array.getElem?_toList]

theorem peek_zero (h : 0 ≤ c.position) : c.peek 0 = c.ahead.head? := by
  rw [List.head?_eq_getElem?]
  exact peek_eq h 0

theorem peek_one (h : 0 ≤ c.position) (hahead : c.ahead = character :: rest) :
    c.peek 1 = rest.head? := by
  have hone := peek_eq h 1
  rw [hahead, List.getElem?_cons_succ, ← List.head?_eq_getElem?] at hone
  exact hone

theorem atEnd_eq (h : 0 ≤ c.position) : c.atEnd = c.ahead.isEmpty := by
  rw [Bool.eq_iff_iff, List.isEmpty_iff, ahead, List.drop_eq_nil_iff, atEnd, decide_eq_true_iff,
    Array.length_toList]
  omega

theorem next_of_cons (h : 0 ≤ c.position) (hahead : c.ahead = character :: rest) :
    c.next = .ok (character, c.step character) := by
  have hend : c.atEnd = false := by rw [atEnd_eq h, hahead]; rfl
  have hfacing : c.facing? = some character := by
    have hpeek := peek_zero h
    rw [hahead, peek, Int.add_zero] at hpeek
    rw [facing?, if_neg (by omega)]
    exact hpeek
  rw [next, hend, hfacing]
  rfl

/-- Reading on as long as characters are of a class takes the longest run of them. -/
theorem takeWhile_eq (p : Option Char → Bool) (h : 0 ≤ c.position) :
    c.takeWhile p = (.ok (c.ahead.takeWhile fun character => p (some character)),
      c.past (c.ahead.takeWhile fun character => p (some character))) := by
  -- The induction is on the text ahead, which gets shorter while the text of the cursor stays.
  induction hahead : c.ahead generalizing c with
  | nil =>
      have hend : c.atEnd = true := by rw [atEnd_eq h, hahead]; rfl
      rw [takeWhile, hend]
      rfl
  | cons character rest ih =>
      have hend : c.atEnd = false := by rw [atEnd_eq h, hahead]; rfl
      have hpeek : c.peek 0 = some character := by rw [peek_zero h, hahead]; rfl
      rw [takeWhile, hend, hpeek, List.takeWhile_cons]
      cases hp : p (some character) with
      | false => rfl
      | true =>
          have hstep := ih (c := c.step character) (by rw [position_step]; omega)
            (ahead_step h hahead)
          simp only [Bool.not_true, Bool.or_self, Bool.false_eq_true, if_false, if_true]
          split
          · next hnext =>
            rw [next_of_cons h hahead] at hnext
            cases hnext
          · next hnext =>
            rw [next_of_cons h hahead] at hnext
            cases hnext
            rw [hstep]
            rfl

theorem takeWhile_run {p : Option Char → Bool} {run : List Char} (h : 0 ≤ c.position)
    (hahead : c.ahead = run ++ rest) (hrun : ∀ d ∈ run, p (some d) = true)
    (hrest : ∀ d ∈ rest.head?, p (some d) = false) : c.takeWhile p = (.ok run, c.past run) := by
  rw [takeWhile_eq p h, hahead, takeWhile_of_run hrun hrest]

@[simp] theorem ahead_start (source : String) : (start source).ahead = source.toList := by
  simp [ahead, start]

end Cursor

end Reckoner
