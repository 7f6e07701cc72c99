import Reckoner.Proofs.Scan.Positions

/-!
# The scanner makes progress

A call for the next token is told by the text ahead of the cursor: it finds the end, a lexeme, a
character that starts no token, or a number that is malformed. The end is found just where only
blanks and comments are left, and it is found again by every further call. A token moves the cursor
on, so that there are no more tokens than characters, and an error is never one of reading past the
text. A refused character stays ahead of the cursor and is refused again.
-/

namespace Reckoner

open Text (isDigit)

namespace Cursor

/-! ## Cursors on a text -/

/-- Whether a cursor stands before a text, in it or at its end. -/
structure On (c : Cursor) (text : Array Char) : Prop where
  text_eq : c.text = text
  position_le : c.position ≤ text.size

section On

variable {c : Cursor} {text : Array Char}

theorem On.step (h : c.On text) (hend : c.atEnd = false) (character : Char) :
    (c.step character).On text := by
  obtain ⟨rfl, hle⟩ := h
  rw [atEnd, decide_eq_false_iff_not] at hend
  refine ⟨text_step c character, ?_⟩
  rw [position_step]
  omega

theorem On.next {d : Cursor} {character : Char} (h : c.On text)
    (hnext : c.next = .ok (character, d)) : d.On text := by
  obtain ⟨hend, rfl⟩ := next_eq_ok hnext
  exact h.step hend character

theorem On.takeWhile (h : c.On text) (p : Option Char → Bool) : (c.takeWhile p).2.On text := by
  fun_induction Cursor.takeWhile p c with
  | case1 => exact h
  | case2 => exact h
  | case3 c _ character d hnext characters e htake ih =>
      rw [htake] at ih
      exact ih (h.next hnext)
  | case4 c _ character d hnext problem e htake ih =>
      rw [htake] at ih
      exact ih (h.next hnext)

theorem On.skipComment (h : c.On text) : c.skipComment.2.On text := by
  have hrun := h.takeWhile inComment
  unfold Cursor.skipComment
  split <;> simp_all

theorem On.skipGap (h : c.On text) : c.skipGap.2.On text := by
  fun_induction Cursor.skipGap c with
  | case1 c e d hgap =>
      have hrun := h.takeWhile isGap
      rwa [hgap] at hrun
  | case2 c _ d hgap =>
      have hrun := h.takeWhile isGap
      rwa [hgap] at hrun
  | case3 c _ d hgap _ _ e hnext problem f hcomment =>
      have hrun := h.takeWhile isGap
      rw [hgap] at hrun
      have hline := (hrun.next hnext).skipComment
      rwa [hcomment] at hline
  | case4 c _ d hgap _ _ e hnext f hcomment ih =>
      have hrun := h.takeWhile isGap
      rw [hgap] at hrun
      have hline := (hrun.next hnext).skipComment
      rw [hcomment] at hline
      exact ih hline
  | case5 c _ d hgap =>
      have hrun := h.takeWhile isGap
      rwa [hgap] at hrun

theorem On.takeNumber (h : c.On text) (start : Position) : (c.takeNumber start).2.On text := by
  have hwhole := h.takeWhile isDigitAhead
  unfold Cursor.takeNumber
  split
  · next hrun => simpa only [hrun] using hwhole
  · next d hrun =>
    rw [hrun] at hwhole
    split
    · next hpoint =>
      have hstep := hwhole.step (atEnd_eq_false_of_peek (eq_of_beq hpoint)) '.'
      have hfraction := hstep.takeWhile isDigitAhead
      split
      · split
        · next hrun' => simpa only [hrun'] using hfraction
        · next hrun' =>
          rw [hrun'] at hfraction
          split <;> exact hfraction
      · exact hwhole
    · exact hwhole

theorem On.readNumber (h : c.On text) (start : Position) : (c.readNumber start).2.On text := by
  have hnumber := h.takeNumber start
  unfold Cursor.readNumber
  split
  · next hrun => simpa only [hrun] using hnumber
  · next hrun =>
    rw [hrun] at hnumber
    split <;> exact hnumber

theorem On.readWord (h : c.On text) (start : Position) : (c.readWord start).2.On text := by
  have hrun := h.takeWhile isWordAhead
  unfold Cursor.readWord
  split <;> simp_all

theorem On.readToken {character : Char} (h : c.On text) (hpeek : c.peek 0 = some character) :
    (c.readToken character).2.On text := by
  unfold Cursor.readToken
  split
  · exact h.readNumber c.pos
  · split
    · exact h.readWord c.pos
    · split
      · exact h.step (atEnd_eq_false_of_peek hpeek) character
      · exact h

theorem On.nextToken (h : c.On text) : c.nextToken.2.On text := by
  have hgap := h.skipGap
  unfold Cursor.nextToken
  split
  · next hskip => simpa only [hskip] using hgap
  · next d hskip =>
    rw [hskip] at hgap
    split
    · exact hgap
    · next character hpeek =>
      have htoken := hgap.readToken hpeek
      split <;> simp_all

end On

theorem On.tokens {c : Cursor} {text : Array Char} (h : c.On text) : c.tokens.stop.On text := by
  have hnext := h.nextToken
  match hcall : c.nextToken with
  | (.error e, d) =>
      rw [hcall] at hnext
      rwa [tokens_of_error hcall]
  | (.ok none, d) =>
      rw [hcall] at hnext
      rwa [tokens_of_none hcall]
  | (.ok (some t), d) =>
      rw [hcall] at hnext
      have hless := remaining_nextToken_lt hcall
      rw [tokens_of_some hcall]
      exact hnext.tokens
termination_by c.remaining

/-- No operation moves a cursor past the end of its text, wherever it starts. -/
theorem On.perform {c : Cursor} {text : Array Char} (h : c.On text) (op : Operation) :
    (c.perform op).On text := by
  cases op with
  | next =>
      rw [Cursor.perform]
      split
      · next hnext => exact h.next hnext
      · exact h
  | peek offset => exact h
  | skipGap => exact h.skipGap
  | skipComment => exact h.skipComment
  | readNumber start => exact h.readNumber start
  | readWord start => exact h.readWord start
  | nextToken => exact h.nextToken
  | tokens => exact h.tokens

/-- The cursors that come about on a text: one is put before it, in it or at its end, and is then
asked for anything, any number of times. -/
inductive Reachable (source : String) : Cursor → Prop
  | put {position : Int} (line column : Int) (h : position ≤ source.length) :
      Reachable source ⟨source.toList.toArray, position, line, column⟩
  | perform {c : Cursor} (op : Operation) (hc : Reachable source c) :
      Reachable source (c.perform op)

theorem Reachable.on {source : String} {c : Cursor} (hc : Reachable source c) :
    c.On source.toList.toArray := by
  induction hc with
  | put line column h =>
      refine ⟨rfl, ?_⟩
      rwa [List.size_toArray, String.length_toList]
  | perform op _ ih => exact ih.perform op

/-! ## One call -/

/-- What a call for the next token gives and where it leaves the cursor, told by the text ahead. -/
inductive Call (c d : Cursor) : Except ScanError (Option Token) → Prop
  | stop (hgap : Gap c.ahead []) (hd : d = c.past c.ahead) : Call c d (.ok none)
  | token {g l rest : List Char} {kind : Token.Kind} {value : Value}
      (hahead : c.ahead = g ++ (l ++ rest)) (hgap : Gap g (l ++ rest))
      (hl : Lexeme l rest kind value) (hd : d = (c.past g).past l) :
      Call c d (.ok (some ⟨kind, value, c.pos.past g, l.length⟩))
  | character {g rest : List Char} {character : Char}
      (hahead : c.ahead = g ++ character :: rest) (hrest : StartsNoGap (character :: rest))
      (hdigit : isDigit character = false) (hword : startsWord character = false)
      (hkind : punctuation? character = none) (hd : d = c.past g) :
      Call c d (.error (.unexpectedCharacter character (c.pos.past g)))
  | malformed {spelling : String} {p : Position} (hd : c.Reaches d) :
      Call c d (.error (.malformedNumber spelling p))

section Calls

variable {c : Cursor}

/-- A character that starts no token is refused where it stands. -/
theorem nextToken_of_character {g rest : List Char} {character : Char}
    (hgap : Gap g (character :: rest)) (hrest : StartsNoGap (character :: rest))
    (h : 0 ≤ c.position) (hahead : c.ahead = g ++ character :: rest)
    (hdigit : isDigit character = false) (hword : startsWord character = false)
    (hkind : punctuation? character = none) :
    c.nextToken = (.error (.unexpectedCharacter character (c.pos.past g)), c.past g) := by
  have hpeek : (c.past g).peek 0 = some character := by
    rw [peek_zero (inside_past h g), ahead_past h hahead, List.head?_cons]
  have hread : (c.past g).readToken character =
      (.error (.unexpectedCharacter character (c.pos.past g)), c.past g) := by
    simp [readToken, hdigit, hword, hkind]
  simp only [nextToken, skipGap_eq hgap hrest h hahead, hpeek, hread]

theorem call_of_nextToken {d : Cursor} {result : Except ScanError (Option Token)}
    (h : 0 ≤ c.position) (hcall : c.nextToken = (result, d)) : Call c d result := by
  obtain ⟨g, rest, hahead, hgap, hrest⟩ := exists_gap c.ahead
  rcases lexeme_or_fault (c.pos.past g) hrest with rfl | ⟨l, more, kind, value, rfl, hl⟩ | ⟨e, he⟩
  · rw [nextToken_of_end hgap hrest h hahead rfl] at hcall
    obtain ⟨rfl, rfl⟩ := Prod.mk.inj hcall
    rw [List.append_nil] at hahead
    subst hahead
    exact .stop hgap rfl
  · rw [nextToken_of_lexeme hgap hrest h hahead rfl hl] at hcall
    obtain ⟨rfl, rfl⟩ := Prod.mk.inj hcall
    exact .token hahead hgap hl rfl
  · have herror := nextToken_of_fault hgap hrest h hahead he
    have hreaches := reaches_nextToken h
    rw [hcall] at herror hreaches
    obtain rfl : result = .error e := herror
    cases he with
    | character _ hdigit hword hkind =>
        rw [nextToken_of_character hgap hrest h hahead hdigit hword hkind] at hcall
        exact .character hahead hrest hdigit hword hkind (Prod.mk.inj hcall).2.symm
    | lonePoint _ _ _ => exact .malformed hreaches
    | secondPoint _ _ _ _ _ => exact .malformed hreaches
    | notDecimal _ _ _ => exact .malformed hreaches

theorem length_ahead (c : Cursor) : c.ahead.length = c.text.size - c.position.toNat := by
  rw [ahead, List.length_drop, Array.length_toList]

variable {d : Cursor} (h : 0 ≤ c.position)

include h

theorem nextToken_of_gap (hgap : Gap c.ahead []) : c.nextToken = (.ok none, c.past c.ahead) :=
  nextToken_of_end hgap halts_nil.1 h (List.append_nil _).symm rfl

theorem nextToken_eq_none_iff : (∃ d, c.nextToken = (.ok none, d)) ↔ Gap c.ahead [] := by
  constructor
  · rintro ⟨d, hcall⟩
    cases call_of_nextToken h hcall with
    | stop hgap _ => exact hgap
  · intro hgap
    exact ⟨_, nextToken_of_gap h hgap⟩

/-- Where the end was found there is nothing ahead, and it is found again. -/
theorem nextToken_end (hcall : c.nextToken = (.ok none, d)) :
    d.position = max c.position c.text.size ∧ d.nextToken = (.ok none, d) := by
  have hgap := (nextToken_eq_none_iff h).mp ⟨d, hcall⟩
  rw [nextToken_of_gap h hgap] at hcall
  obtain rfl : c.past c.ahead = d := congrArg Prod.snd hcall
  have hahead : (c.past c.ahead).ahead = [] := ahead_past h (List.append_nil _).symm
  constructor
  · rw [position_past, length_ahead]
    omega
  · have hnil : Gap (c.past c.ahead).ahead [] := by
      rw [hahead]
      exact .nil []
    rw [nextToken_of_gap (inside_past h _) hnil, hahead, past_nil]

/-- A token was found behind a gap, and the cursor stands after it. -/
theorem nextToken_token {t : Token} (hcall : c.nextToken = (.ok (some t), d)) :
    ∃ g l rest, c.ahead = g ++ (l ++ rest) ∧ Gap g (l ++ rest) ∧ Lexeme l rest t.kind t.value ∧
      t.length = l.length ∧ 0 < t.length ∧ d.position = c.position + g.length + t.length := by
  cases call_of_nextToken h hcall with
  | @token g l rest kind value hahead hgap hl hd =>
      have hpos := List.length_pos_iff.mpr hl.ne_nil
      refine ⟨g, l, rest, hahead, hgap, hl, rfl, ?_, ?_⟩
      · exact Int.natCast_pos.mpr hpos
      · rw [hd, position_past, position_past]

/-- Errors are those of tokens, and they leave the cursor in the text. -/
theorem nextToken_error {e : ScanError} (hcall : c.nextToken = (.error e, d)) :
    ((∃ spelling p, e = .malformedNumber spelling p) ∨
        ∃ character p, e = .unexpectedCharacter character p) ∧
      c.position ≤ d.position := by
  obtain ⟨cs, rest, -, hd⟩ := reaches_nextToken h
  obtain rfl : d = c.past cs := by rw [← hd, hcall]
  have hle : c.position ≤ (c.past cs).position := by
    rw [position_past]
    omega
  cases call_of_nextToken h hcall with
  | character _ _ _ _ _ _ => exact ⟨Or.inr ⟨_, _, rfl⟩, hle⟩
  | malformed _ => exact ⟨Or.inl ⟨_, _, rfl⟩, hle⟩

theorem nextToken_character {character : Char} {p : Position}
    (hcall : c.nextToken = (.error (.unexpectedCharacter character p), d)) :
    d.peek 0 = some character ∧ d.nextToken = (.error (.unexpectedCharacter character p), d) := by
  cases call_of_nextToken h hcall with
  | @character g rest _ hahead hrest hdigit hword hkind hd =>
      subst hd
      have hinside := inside_past h g
      have hahead' := ahead_past h hahead
      constructor
      · rw [peek_zero hinside, hahead', List.head?_cons]
      · rw [nextToken_of_character (.nil _) hrest hinside hahead' hdigit hword hkind, pos_past]
        rfl

end Calls

/-! ## Call after call -/

/-- Calls one after another that return the given tokens. -/
inductive Emits : Cursor → List Token → Cursor → Prop
  | nil (c : Cursor) : Emits c [] c
  | cons {c d e : Cursor} {t : Token} {ts : List Token}
      (hcall : c.nextToken = (.ok (some t), d)) (hrest : Emits d ts e) : Emits c (t :: ts) e

theorem Emits.length_le {c d : Cursor} {ts : List Token} (h : Emits c ts d) :
    ts.length + d.remaining ≤ c.remaining := by
  induction h with
  | nil c => simp
  | cons hcall _ ih =>
      have hless := remaining_nextToken_lt hcall
      rw [List.length_cons]
      omega

/-- A token ends in the text, also where the cursor was before the text. -/
theorem position_pos_of_token {c d : Cursor} {t : Token}
    (hcall : c.nextToken = (.ok (some t), d)) : 0 < d.position := by
  unfold nextToken at hcall
  split at hcall
  · simp at hcall
  · next e hskip =>
    split at hcall
    · simp at hcall
    · next character hpeek =>
      have hinside : 0 ≤ e.position := by
        unfold peek charAt? at hpeek
        split at hpeek
        · cases hpeek
        · omega
      obtain ⟨cs, rest, -, hd⟩ := reaches_readToken hinside hpeek
      split at hcall
      · next token f hread =>
        cases hcall
        have hless := remaining_readToken_lt hpeek hread
        obtain rfl : d = e.past cs := by rw [← hd, hread]
        have hne : cs ≠ [] := by
          rintro rfl
          exact Nat.lt_irrefl _ hless
        have hpos := List.length_pos_iff.mpr hne
        rw [position_past]
        omega
      · simp at hcall

/-- There are no more tokens than characters, wherever the calls start. -/
theorem Emits.length_le_size {c d : Cursor} {ts : List Token} {text : Array Char}
    (h : Emits c ts d) (hc : c.On text) : ts.length ≤ text.size := by
  cases h with
  | nil => exact Nat.zero_le _
  | @cons _ e _ t ts hcall hrest =>
      have hbound := hrest.length_le
      have hpos := position_pos_of_token hcall
      have hon := hc.nextToken
      rw [hcall] at hon
      have htext : e.text = text := hon.text_eq
      have hle : e.position ≤ text.size := hon.position_le
      have hremaining : e.remaining = ((text.size : Int) - e.position).toNat := by
        rw [remaining, htext]
      rw [List.length_cons]
      omega

/-- The tokens from a cursor on are what call after call returns until one returns none. -/
theorem emits_tokens (c : Cursor) :
    ∃ d, Emits c c.tokens.tokens d ∧
      d.nextToken = (c.tokens.error?.elim (.ok none) .error, c.tokens.stop) := by
  match hcall : c.nextToken with
  | (.error e, d) =>
      rw [tokens_of_error hcall]
      exact ⟨c, .nil c, hcall⟩
  | (.ok none, d) =>
      rw [tokens_of_none hcall]
      exact ⟨c, .nil c, hcall⟩
  | (.ok (some t), d) =>
      have hless := remaining_nextToken_lt hcall
      obtain ⟨e, hemits, hstop⟩ := emits_tokens d
      rw [tokens_of_some hcall]
      exact ⟨e, .cons hcall hemits, hstop⟩
termination_by c.remaining

/-- A call for the next token finds the end just where blanks and comments are left, and then for
good. A token moves the cursor over the gap and the token, and every error is one of tokens, with
the cursor in the text and not moved back. Call after call stops, with no more tokens than the
source has characters, and a refused character is refused again. -/
theorem nextToken_progress {source : String} {c : Cursor} (hc : Reachable source c)
    (h : 0 ≤ c.position) :
    ((∃ d, c.nextToken = (.ok none, d)) ↔ Gap c.ahead []) ∧
    (∀ d, c.nextToken = (.ok none, d) →
      d.position = source.length ∧ d.nextToken = (.ok none, d)) ∧
    (∀ t d, c.nextToken = (.ok (some t), d) →
      c.position < d.position ∧
        ∃ g l rest, c.ahead = g ++ (l ++ rest) ∧ Gap g (l ++ rest) ∧
          Lexeme l rest t.kind t.value ∧ t.length = l.length ∧
          d.position = c.position + g.length + t.length) ∧
    (∀ e d, c.nextToken = (.error e, d) →
      ((∃ spelling p, e = .malformedNumber spelling p) ∨
        ∃ character p, e = .unexpectedCharacter character p) ∧
      c.position ≤ d.position ∧ d.position ≤ source.length) ∧
    ((∀ ts d, Emits c ts d → ts.length ≤ source.length) ∧
      ∃ d, Emits c c.tokens.tokens d ∧
        d.nextToken = (c.tokens.error?.elim (.ok none) .error, c.tokens.stop)) ∧
    (∀ character p d, c.nextToken = (.error (.unexpectedCharacter character p), d) →
      d.peek 0 = some character ∧
        d.nextToken = (.error (.unexpectedCharacter character p), d)) := by
  have hon := hc.on
  have hsize : source.toList.toArray.size = source.length := by
    rw [List.size_toArray, String.length_toList]
  refine ⟨nextToken_eq_none_iff h, ?_, ?_, ?_, ⟨?_, emits_tokens c⟩, ?_⟩
  · intro d hcall
    obtain ⟨hposition, hagain⟩ := nextToken_end h hcall
    refine ⟨?_, hagain⟩
    have hle := hon.position_le
    rw [hposition, hon.text_eq, Int.max_eq_right hle, hsize]
  · intro t d hcall
    obtain ⟨g, l, rest, hahead, hgap, hl, hlength, hpos, hposition⟩ := nextToken_token h hcall
    refine ⟨by omega, g, l, rest, hahead, hgap, hl, hlength, hposition⟩
  · intro e d hcall
    obtain ⟨hkind, hle⟩ := nextToken_error h hcall
    have hend := hon.nextToken.position_le
    rw [hcall, hsize] at hend
    exact ⟨hkind, hle, hend⟩
  · intro ts d hemits
    rw [← hsize]
    exact hemits.length_le_size hon
  · intro character p d hcall
    exact nextToken_character h hcall

/-- From the start of a text with three characters. -/
theorem nextToken_progress_start :
    Reachable "x ?" ⟨"x ?".toList.toArray, 0, 1, 1⟩ ∧
      ∀ ts d, Emits ⟨"x ?".toList.toArray, 0, 1, 1⟩ ts d → ts.length ≤ 3 := by
  have hput : Reachable "x ?" ⟨"x ?".toList.toArray, 0, 1, 1⟩ := .put 1 1 (by decide)
  exact ⟨hput, (nextToken_progress hput (by decide)).2.2.2.2.1.1⟩

end Cursor

end Reckoner
