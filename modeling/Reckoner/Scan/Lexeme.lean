import Reckoner.Scan.Cursor
import Reckoner.Number.Reading
import Reckoner.Text.Letter
import Reckoner.Token.Basic

/-!
# Splitting text into tokens

Between tokens stand blanks and comments. A token is a number, a word or a single punctuation
character, and each is as long as possible. A word is a name unless it is the keyword. The scan
either finds a token, or the end of the text, or an error; the cursor stands after what was read
in each case.

The main fact is that a token that was found leaves fewer characters to read.
-/

namespace Reckoner

/-! ## Classes of characters -/

/-- Characters between tokens other than newlines. Where no character is ahead, the text is
crossed as if it were blank. -/
def isGap : Option Char → Bool
  | some c => c == ' ' || c == '\t' || c == '\r'
  | none => true

/-- Everything up to the end of a line. -/
def inComment (ahead : Option Char) : Bool :=
  ahead != some '\n'

/-- Whether a digit is ahead. -/
def isDigitAhead : Option Char → Bool
  | some c => Text.isDigit c
  | none => false

/-- Whether a character may start a word. -/
def startsWord (c : Char) : Bool :=
  Text.isLetter c || c == '_'

/-- Whether a character that may stand inside a word is ahead. -/
def isWordAhead : Option Char → Bool
  | some c => Text.isLetter c || Text.isNumeral c || c == '_'
  | none => false

/-- The kind of a punctuation character. -/
def punctuation? : Char → Option Token.Kind
  | '+' => some .plus
  | '-' => some .minus
  | '*' => some .star
  | '/' => some .slash
  | '^' => some .caret
  | '(' => some .openParen
  | ')' => some .closeParen
  | '=' => some .assign
  | '!' => some .bang
  | ';' => some .terminator
  | '\n' => some .terminator
  | _ => none

/-- The kind of a word. -/
def wordKind (word : String) : Token.Kind :=
  if word == "print" then .print else .name

theorem isWordAhead_of_startsWord {c : Char} (h : startsWord c = true) :
    isWordAhead (some c) = true := by
  simp only [startsWord, Bool.or_eq_true] at h
  rcases h with h | h <;> simp [isWordAhead, h]

namespace Cursor

/-! ## Pieces of text -/

/-- Crosses a comment up to the end of its line. -/
def skipComment (c : Cursor) : Except ScanError Unit × Cursor :=
  match c.takeWhile inComment with
  | (.ok _, d) => (.ok (), d)
  | (.error e, d) => (.error e, d)

theorem remaining_skipComment_le (c : Cursor) : c.skipComment.2.remaining ≤ c.remaining := by
  have h := remaining_takeWhile_le inComment c
  unfold skipComment
  split <;> simp_all

/-- Crosses blanks and comments. -/
def skipGap (c : Cursor) : Except ScanError Unit × Cursor :=
  match _hGap : c.takeWhile isGap with
  | (.error e, d) => (.error e, d)
  | (.ok _, d) =>
    if d.peek 0 == some '#' then
      match _hNext : d.next with
      | .error e => (.error e, d)
      | .ok (_, e) =>
        match _hComment : e.skipComment with
        | (.error problem, f) => (.error problem, f)
        | (.ok (), f) => skipGap f
    else
      (.ok (), d)
termination_by c.remaining
decreasing_by
  have hFirst := remaining_takeWhile_le isGap c
  have hSecond := remaining_lt_of_next _hNext
  have hThird := remaining_skipComment_le e
  rw [_hGap] at hFirst
  rw [_hComment] at hThird
  exact Nat.lt_of_le_of_lt hThird (Nat.lt_of_lt_of_le hSecond hFirst)

theorem remaining_skipGap_le (c : Cursor) : c.skipGap.2.remaining ≤ c.remaining := by
  fun_induction skipGap c with
  | case1 c e d hGap =>
    have h := remaining_takeWhile_le isGap c
    rwa [hGap] at h
  | case2 c _ d hGap =>
    have h := remaining_takeWhile_le isGap c
    rwa [hGap] at h
  | case3 c _ d hGap _ _ e hNext problem f hComment =>
    have hFirst := remaining_takeWhile_le isGap c
    have hSecond := remaining_lt_of_next hNext
    have hThird := remaining_skipComment_le e
    rw [hGap] at hFirst
    rw [hComment] at hThird
    exact Nat.le_trans hThird (Nat.le_trans (Nat.le_of_lt hSecond) hFirst)
  | case4 c _ d hGap _ _ e hNext f hComment ih =>
    have hFirst := remaining_takeWhile_le isGap c
    have hSecond := remaining_lt_of_next hNext
    have hThird := remaining_skipComment_le e
    rw [hGap] at hFirst
    rw [hComment] at hThird
    exact Nat.le_trans ih (Nat.le_trans hThird (Nat.le_trans (Nat.le_of_lt hSecond) hFirst))
  | case5 c _ d hGap =>
    have h := remaining_takeWhile_le isGap c
    rwa [hGap] at h

/-- The spelling of a number: a run of digits, or two runs around a point. A point needs a digit
after it, and a second point is refused; the cursor then stands before the point that is
wrong. -/
def takeNumber (start : Position) (c : Cursor) : Except ScanError (List Char) × Cursor :=
  match c.takeWhile isDigitAhead with
  | (.error e, d) => (.error e, d)
  | (.ok whole, d) =>
    if d.peek 0 == some '.' then
      if isDigitAhead (d.peek 1) then
        match (d.step '.').takeWhile isDigitAhead with
        | (.error e, f) => (.error e, f)
        | (.ok fraction, f) =>
          if f.peek 0 == some '.' then
            (.error (.malformedNumber (String.ofList (whole ++ '.' :: fraction ++ ['.'])) start), f)
          else
            (.ok (whole ++ '.' :: fraction), f)
      else
        (.error (.malformedNumber (String.ofList (whole ++ ['.'])) start), d)
    else
      (.ok whole, d)

/-- Reads a number that is reported at the given position. Digits that take no part in
positional numbers make it malformed. -/
def readNumber (start : Position) (c : Cursor) : Except ScanError Token × Cursor :=
  match c.takeNumber start with
  | (.error e, d) => (.error e, d)
  | (.ok spelling, d) =>
    match Number.literal? spelling with
    | some value => (.ok ⟨.number, .number value, start, spelling.length⟩, d)
    | none => (.error (.malformedNumber (String.ofList spelling) start), d)

/-- Reads a word that is reported at the given position. -/
def readWord (start : Position) (c : Cursor) : Except ScanError Token × Cursor :=
  match c.takeWhile isWordAhead with
  | (.error e, d) => (.error e, d)
  | (.ok word, d) =>
    let word := String.ofList word
    (.ok (Token.ofValue (wordKind word) (.text word) start), d)

/-- Reads the token that starts with the given character, which is ahead. -/
def readToken (c : Cursor) (character : Char) : Except ScanError Token × Cursor :=
  if Text.isDigit character then c.readNumber c.pos
  else if startsWord character then c.readWord c.pos
  else
    match punctuation? character with
    | some kind =>
      (.ok (Token.ofValue kind (.text (String.singleton character)) c.pos), c.step character)
    | none => (.error (.unexpectedCharacter character c.pos), c)

/-- Finds the next token, or nothing at the end of the text. -/
def nextToken (c : Cursor) : Except ScanError (Option Token) × Cursor :=
  match c.skipGap with
  | (.error e, d) => (.error e, d)
  | (.ok (), d) =>
    match d.peek 0 with
    | none => (.ok none, d)
    | some character =>
      match d.readToken character with
      | (.ok token, e) => (.ok (some token), e)
      | (.error problem, e) => (.error problem, e)

/-! ## Progress -/

theorem remaining_takeNumber_lt {c d : Cursor} {start : Position} {spelling : List Char}
    (hDigit : isDigitAhead (c.peek 0) = true) (hEnd : c.atEnd = false)
    (h : c.takeNumber start = (.ok spelling, d)) : d.remaining < c.remaining := by
  unfold takeNumber at h
  split at h
  · simp at h
  · next whole e hWhole =>
    have hFirst := remaining_takeWhile_lt hEnd hDigit hWhole
    split at h
    · next hPoint =>
      split at h
      · split at h
        · simp at h
        · next fraction f hFraction =>
          have hStep := remaining_step_lt '.' (atEnd_eq_false_of_peek (eq_of_beq hPoint))
          have hSecond := remaining_takeWhile_le isDigitAhead (e.step '.')
          rw [hFraction] at hSecond
          split at h
          · simp at h
          · cases h
            exact Nat.lt_trans (Nat.lt_of_le_of_lt hSecond hStep) hFirst
      · simp at h
    · cases h
      exact hFirst

theorem remaining_readToken_lt {c d : Cursor} {character : Char} {token : Token}
    (hAhead : c.peek 0 = some character) (h : c.readToken character = (.ok token, d)) :
    d.remaining < c.remaining := by
  have hEnd := atEnd_eq_false_of_peek hAhead
  unfold readToken at h
  split at h
  · next hDigit =>
    unfold readNumber at h
    split at h
    · simp at h
    · next spelling e hNumber =>
      have hLess := remaining_takeNumber_lt (by rw [hAhead]; exact hDigit) hEnd hNumber
      split at h
      · cases h
        exact hLess
      · simp at h
  · split at h
    · next hWord =>
      unfold readWord at h
      split at h
      · simp at h
      · next word e hTake =>
        cases h
        exact remaining_takeWhile_lt hEnd
          (by rw [hAhead]; exact isWordAhead_of_startsWord hWord) hTake
    · split at h
      · cases h
        exact remaining_step_lt character hEnd
      · simp at h

/-- A token that was found leaves fewer characters to read. -/
theorem remaining_nextToken_lt {c d : Cursor} {token : Token}
    (h : c.nextToken = (.ok (some token), d)) : d.remaining < c.remaining := by
  unfold nextToken at h
  have hGap := remaining_skipGap_le c
  split at h
  · simp at h
  · next e hSkip =>
    rw [hSkip] at hGap
    split at h
    · simp at h
    · next character hAhead =>
      split at h
      · next found f hRead =>
        cases h
        exact Nat.lt_of_lt_of_le (remaining_readToken_lt hAhead hRead) hGap
      · simp at h

end Cursor

/-! ## All tokens of a text -/

/-- The tokens of a text up to its end or the first error, and where the cursor stops. -/
structure Tokens where
  tokens : List Token
  error? : Option ScanError
  stop : Cursor

/-- The tokens from a cursor on. -/
def Cursor.tokens (c : Cursor) : Tokens :=
  match _h : c.nextToken with
  | (.error e, d) => ⟨[], some e, d⟩
  | (.ok none, d) => ⟨[], none, d⟩
  | (.ok (some token), d) =>
    let rest := d.tokens
    ⟨token :: rest.tokens, rest.error?, rest.stop⟩
termination_by c.remaining
decreasing_by exact Cursor.remaining_nextToken_lt _h

/-- The tokens of a text. -/
def tokenize (source : String) : Tokens :=
  (Cursor.start source).tokens

end Reckoner
