import Reckoner.Proofs.Scan.Tokenization

/-!
# Numbers and what is wrong with them

Where a digit is ahead, the scanner reads a number from the longest run of digits and points. The
run is a number if it has at most one point, with a digit on both sides, and all its digits are
decimal. Otherwise one of three things is wrong with it, of which the first one is reported: a point
that no digit follows, a second point, a digit that is not decimal. The cursor then stands before
the point that is wrong, or at the end of the run.
-/

namespace Reckoner

open Text (isDigit decimalValue?)

def inNumber (c : Char) : Bool :=
  isDigit c || c == '.'

/-- The longest run of digits and points that a text starts with. -/
def numberRun (text : List Char) : List Char :=
  text.takeWhile inNumber

/-- What is wrong with a run of digits and points, with the part of it that is reported and the part
of it that is read. -/
inductive Misspelled : List Char → List Char → List Char → Prop
  | lonePoint {ds rest : List Char} :
      '.' ∉ ds → (∀ c ∈ rest.head?, isDigit c = false) →
        Misspelled (ds ++ '.' :: rest) (ds ++ ['.']) ds
  | secondPoint {ds es : List Char} (rest : List Char) :
      '.' ∉ ds → '.' ∉ es → es ≠ [] →
        Misspelled (ds ++ '.' :: (es ++ '.' :: rest)) (ds ++ '.' :: es ++ ['.']) (ds ++ '.' :: es)
  | notDecimal {run : List Char} {d : Char} :
      Spelling run → d ∈ run → isDigit d = true → decimalValue? d = none → Misspelled run run run

/-! ## Runs -/

theorem isDigit_of_inNumber {c : Char} (h : inNumber c = true) (hne : c ≠ '.') :
    isDigit c = true := by
  simpa [inNumber, hne] using h

theorem isDigit_of_not_inNumber {c : Char} (h : inNumber c = false) : isDigit c = false := by
  simp only [inNumber, Bool.or_eq_false_iff] at h
  exact h.1

theorem endsNumber_of_not_inNumber {text : List Char}
    (h : ∀ c ∈ text.head?, inNumber c = false) : EndsNumber text := by
  intro c hc
  simpa [inNumber] using h c hc

/-- A part of a run without a point is made of digits. -/
theorem isDigit_of_point_not_mem {ds : List Char} (h : ∀ d ∈ ds, inNumber d = true)
    (hpoint : '.' ∉ ds) : ∀ d ∈ ds, isDigit d = true := by
  intro d hd
  refine isDigit_of_inNumber (h d hd) ?_
  rintro rfl
  exact hpoint hd

theorem exists_numberRun (text : List Char) :
    ∃ rest, text = numberRun text ++ rest ∧ (∀ c ∈ numberRun text, inNumber c = true) ∧
      ∀ c ∈ rest.head?, inNumber c = false := by
  obtain ⟨run, rest, rfl, hrun, hrest⟩ := exists_longest_run inNumber text
  have hsame : numberRun (run ++ rest) = run := takeWhile_of_run hrun hrest
  rw [hsame]
  exact ⟨rest, rfl, hrun, hrest⟩

/-! ## Decimal digits -/

theorem exists_digits {ds : List Char} (h : ∀ d ∈ ds, (decimalValue? d).isSome = true) :
    ∃ values, Digits ds values := by
  induction ds with
  | nil => exact ⟨[], .nil⟩
  | cons d ds ih =>
      obtain ⟨value, hvalue⟩ := Option.isSome_iff_exists.mp (h d List.mem_cons_self)
      obtain ⟨values, hvalues⟩ := ih fun e he => h e (List.mem_cons_of_mem d he)
      exact ⟨value :: values, .cons hvalue hvalues⟩

theorem Digits.exists_value {ds : List Char} {values : List Nat} (h : Digits ds values) {d : Char}
    (hd : d ∈ ds) : ∃ value, decimalValue? d = some value := by
  induction h with
  | nil => cases hd
  | cons hvalue _ ih =>
      rcases List.mem_cons.mp hd with rfl | hd
      · exact ⟨_, hvalue⟩
      · exact ih hd

/-- A spelling is a number if all its digits are decimal. -/
theorem Spelling.exists_numeral {l : List Char} (h : Spelling l)
    (hdecimal : ∀ d ∈ l, isDigit d = true → (decimalValue? d).isSome = true) :
    ∃ x, Numeral l x := by
  cases h with
  | whole hne hds =>
      obtain ⟨values, hvalues⟩ := exists_digits fun d hd => hdecimal d hd (hds d hd)
      exact ⟨_, .whole hne hvalues⟩
  | @point ds es hne hne' hds hes =>
      have hleft : ∀ d ∈ ds, d ∈ ds ++ '.' :: es := fun d hd => List.mem_append_left _ hd
      have hright : ∀ d ∈ es, d ∈ ds ++ '.' :: es := fun d hd =>
        List.mem_append_right _ (List.mem_cons_of_mem _ hd)
      obtain ⟨values, hvalues⟩ := exists_digits fun d hd => hdecimal d (hleft d hd) (hds d hd)
      obtain ⟨fraction, hfraction⟩ := exists_digits fun d hd => hdecimal d (hright d hd) (hes d hd)
      exact ⟨_, .point hne hne' hvalues hfraction⟩

theorem Numeral.exists_value {l : List Char} {x : Float} (h : Numeral l x) {d : Char} (hd : d ∈ l)
    (hdigit : isDigit d = true) : ∃ value, decimalValue? d = some value := by
  cases h with
  | whole _ hds => exact hds.exists_value hd
  | point _ _ hds hes =>
      rcases List.mem_append.mp hd with hd | hd
      · exact hds.exists_value hd
      · rcases List.mem_cons.mp hd with rfl | hd
        · rw [isDigit_of_isSign rfl] at hdigit
          cases hdigit
        · exact hes.exists_value hd

/-- A run that starts with a digit is a number, or one of three things is wrong with it. -/
theorem numeral_or_misspelled {d : Char} {ds : List Char} (hd : isDigit d = true)
    (hrun : ∀ c ∈ d :: ds, inNumber c = true) :
    (∃ x, Numeral (d :: ds) x) ∨
      ∃ reported read, Misspelled (d :: ds) reported read := by
  rcases spelling_cases ds hd with ⟨l, rest, hsplit, hl, hrest⟩ |
    ⟨ds', rest, hsplit, -, hds, hrest⟩ | ⟨ds', es, rest, hsplit, -, hne, hds, hes⟩
  · -- Nothing of the run is left after the spelling.
    have hnil : rest = [] := by
      cases rest with
      | nil => rfl
      | cons c rest =>
          have hc := hrun c (by simp [hsplit])
          obtain ⟨hdigit, hpoint⟩ := hrest c rfl
          rw [isDigit_of_inNumber hc hpoint] at hdigit
          cases hdigit
    rw [hnil, List.append_nil] at hsplit
    rw [hsplit]
    by_cases hdecimal : ∀ e ∈ l, isDigit e = true → (decimalValue? e).isSome = true
    · exact Or.inl (hl.exists_numeral hdecimal)
    · push Not at hdecimal
      obtain ⟨e, he, hdigit, hnone⟩ := hdecimal
      exact Or.inr ⟨l, l, .notDecimal hl he hdigit (by simpa using hnone)⟩
  · rw [hsplit]
    exact Or.inr ⟨_, _, .lonePoint (point_not_mem hds) hrest⟩
  · rw [hsplit]
    exact Or.inr ⟨_, _, .secondPoint rest (point_not_mem hds) (point_not_mem hes) hne⟩

/-! ## Reading -/

namespace Cursor

variable {c : Cursor} {start : Position}

theorem exists_ahead_of_peek {d : Char} (h : c.peek 0 = some d) :
    0 ≤ c.position ∧ ∃ cs, c.ahead = d :: cs := by
  have hinside : 0 ≤ c.position := by
    rw [peek, charAt?] at h
    split at h
    · cases h
    · omega
  rw [peek_zero hinside] at h
  exact ⟨hinside, List.head?_eq_some_iff.mp h⟩

theorem readNumber_of_numeral {x : Float} (h : 0 ≤ c.position)
    (hx : Numeral (numberRun c.ahead) x) :
    c.readNumber start =
      (.ok ⟨.number, .number x, start, (numberRun c.ahead).length⟩,
        c.past (numberRun c.ahead)) := by
  obtain ⟨rest, hahead, -, hrest⟩ := exists_numberRun c.ahead
  rw [readNumber,
    takeNumber_of_spelling h hahead hx.spelling (endsNumber_of_not_inNumber hrest)]
  simp only [hx.literal?]

theorem readNumber_of_misspelled {reported read : List Char} (h : 0 ≤ c.position)
    (hwrong : Misspelled (numberRun c.ahead) reported read) :
    c.readNumber start =
      (.error (.malformedNumber (String.ofList reported) start), c.past read) := by
  obtain ⟨tail, hahead, hrun, htail⟩ := exists_numberRun c.ahead
  generalize numberRun c.ahead = run at *
  cases hwrong with
  | @lonePoint _ rest hpoint hrest =>
      have hds : ∀ d ∈ read, isDigit d = true :=
        isDigit_of_point_not_mem (fun d hd => hrun d (by simp [hd])) hpoint
      have hfollowing : ∀ d ∈ (rest ++ tail).head?, isDigit d = false := by
        intro d hd
        cases rest with
        | nil => exact isDigit_of_not_inNumber (htail d hd)
        | cons e rest => exact hrest d hd
      rw [readNumber, takeNumber_lonePoint h (by simpa using hahead) hds hfollowing]
  | @secondPoint ds es rest hpoint hpoint' hne =>
      have hds : ∀ d ∈ ds, isDigit d = true :=
        isDigit_of_point_not_mem (fun d hd => hrun d (by simp [hd])) hpoint
      have hes : ∀ d ∈ es, isDigit d = true :=
        isDigit_of_point_not_mem (fun d hd => hrun d (by simp [hd])) hpoint'
      have hahead' : c.ahead = ds ++ '.' :: (es ++ '.' :: (rest ++ tail)) := by simpa using hahead
      rw [readNumber, takeNumber_secondPoint h hahead' hds hne hes]
  | @notDecimal _ d hspelling hd hdigit hnone =>
      have hliteral : Number.literal? reported = none := by
        rw [Option.eq_none_iff_forall_ne_some]
        intro x hx
        obtain ⟨value, hvalue⟩ := (hspelling.numeral hx).exists_value hd hdigit
        rw [hnone] at hvalue
        cases hvalue
      rw [readNumber,
        takeNumber_of_spelling h hahead hspelling (endsNumber_of_not_inNumber htail)]
      simp only [hliteral]

/-- Where a digit is ahead, a number is read exactly if the longest run of digits and points is a
well-formed number, and the token has the value and the length of the whole run. Otherwise the part
of the run up to what is wrong with it is reported at the given position, and the cursor stands
before the point that is wrong or after the run. -/
theorem readNumber_exact {d : Char} (hpeek : c.peek 0 = some d) (hd : isDigit d = true)
    (start : Position) :
    ((∃ token after, c.readNumber start = (.ok token, after)) ↔
      ∃ x, Numeral (numberRun c.ahead) x) ∧
    (∀ x, Numeral (numberRun c.ahead) x →
      c.readNumber start =
        (.ok ⟨.number, .number x, start, (numberRun c.ahead).length⟩,
          c.past (numberRun c.ahead))) ∧
    ((¬ ∃ x, Numeral (numberRun c.ahead) x) →
      ∃ reported read e, Misspelled (numberRun c.ahead) reported read ∧
        c.readNumber start = (.error e, c.past read) ∧
        e.diagnostic? = some ⟨"Malformed number '" ++ String.ofList reported ++ "'", start⟩) ∧
    ∀ reported read, Misspelled (numberRun c.ahead) reported read →
      c.readNumber start =
        (.error (.malformedNumber (String.ofList reported) start), c.past read) := by
  obtain ⟨hinside, cs, hahead⟩ := exists_ahead_of_peek hpeek
  have hcases : (∃ x, Numeral (numberRun c.ahead) x) ∨
      ∃ reported read, Misspelled (numberRun c.ahead) reported read := by
    obtain ⟨rest, -, hrun, -⟩ := exists_numberRun c.ahead
    have hfirst : numberRun c.ahead = d :: cs.takeWhile inNumber := by
      rw [hahead, numberRun, List.takeWhile_cons, if_pos (by simp [inNumber, hd])]
    rw [hfirst] at hrun ⊢
    exact numeral_or_misspelled hd hrun
  have hwrong (reported read : List Char) (h : Misspelled (numberRun c.ahead) reported read) :
      c.readNumber start =
        (.error (.malformedNumber (String.ofList reported) start), c.past read) :=
    readNumber_of_misspelled hinside h
  refine ⟨⟨?_, ?_⟩, fun x hx => readNumber_of_numeral hinside hx, ?_, hwrong⟩
  · rintro ⟨token, after, hread⟩
    rcases hcases with hx | ⟨reported, read, h⟩
    · exact hx
    · rw [hwrong reported read h] at hread
      cases hread
  · rintro ⟨x, hx⟩
    exact ⟨_, _, readNumber_of_numeral hinside hx⟩
  · intro hnone
    obtain ⟨reported, read, h⟩ := hcases.resolve_left hnone
    exact ⟨reported, read, _, h, hwrong reported read h, rfl⟩

/-- A superscript before a point: the point is reported, since the digits are converted last. -/
theorem readNumber_exact_superscript :
    let c := Cursor.start "1².5.x"
    numberRun c.ahead = ['1', '²', '.', '5', '.'] ∧
      c.readNumber ⟨1, 1⟩ =
        (.error (.malformedNumber "1².5." ⟨1, 1⟩), c.past ['1', '²', '.', '5']) := by
  intro c
  have hrun : numberRun c.ahead = ['1', '²', '.', '5', '.'] := by
    rw [ahead_start]
    decide +kernel
  have hexact := readNumber_exact (c := c) (d := '1') (by decide +kernel) (by decide +kernel) ⟨1, 1⟩
  rw [hrun] at hexact
  have hpoint : '.' ∉ ['1', '²'] ∧ '.' ∉ ['5'] := by decide
  exact ⟨hrun, hexact.2.2.2 _ _ (.secondPoint [] hpoint.1 hpoint.2 (by decide))⟩

end Cursor

end Reckoner
