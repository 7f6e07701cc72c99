import Reckoner.Parse.Basic

/-!
# What a reader shows

A reader pulls tokens from a supply when they are asked for. Seen from outside it is a list of
tokens to come, with an end-of-input token after them or an error of the text in place of it.
Looking ahead changes none of this; taking a token takes it off the list. All later facts about
parsing are stated in these terms, and hold for tokens at hand as well as for a live text.
-/

namespace Reckoner

namespace Cursor

theorem tokens_of_error {c d : Cursor} {e : ScanError} (h : c.nextToken = (.error e, d)) :
    c.tokens = ⟨[], some e, d⟩ := by
  rw [tokens]
  split <;> simp_all

theorem tokens_of_none {c d : Cursor} (h : c.nextToken = (.ok none, d)) :
    c.tokens = ⟨[], none, d⟩ := by
  rw [tokens]
  split <;> simp_all

theorem tokens_of_some {c d : Cursor} {t : Token} (h : c.nextToken = (.ok (some t), d)) :
    c.tokens = ⟨t :: d.tokens.tokens, d.tokens.error?, d.tokens.stop⟩ := by
  rw [tokens]
  split <;> simp_all

theorem length_tokens_le (c : Cursor) : c.tokens.tokens.length ≤ c.remaining := by
  match hNext : c.nextToken with
  | (.error e, d) => simp [tokens_of_error hNext]
  | (.ok none, d) => simp [tokens_of_none hNext]
  | (.ok (some t), d) =>
      have hless := remaining_nextToken_lt hNext
      have hrest := length_tokens_le d
      simp only [tokens_of_some hNext, List.length_cons]
      omega
termination_by c.remaining

end Cursor

namespace Supply

def tokens : Supply → List Token
  | .listed tokens => tokens
  | .live cursor => cursor.tokens.tokens

def error? : Supply → Option ScanError
  | .listed _ => none
  | .live cursor => cursor.tokens.error?

@[simp] theorem tokens_listed (tokens : List Token) : (listed tokens).tokens = tokens := rfl

@[simp] theorem error?_listed (tokens : List Token) : (listed tokens).error? = none := rfl

theorem next_some {supply rest : Supply} {t : Token}
    (h : supply.next = (.ok (some t), rest)) :
    supply.tokens = t :: rest.tokens ∧ supply.error? = rest.error? := by
  cases supply with
  | listed tokens =>
      cases tokens with
      | nil => simp [next] at h
      | cons u us =>
          simp only [next, Prod.mk.injEq, Except.ok.injEq, Option.some.injEq] at h
          obtain ⟨rfl, rfl⟩ := h
          exact ⟨rfl, rfl⟩
  | live cursor =>
      match hNext : cursor.nextToken with
      | (.error e, d) => simp [next, hNext] at h
      | (.ok none, d) => simp [next, hNext] at h
      | (.ok (some u), d) =>
          simp only [next, hNext, Prod.mk.injEq, Except.ok.injEq, Option.some.injEq] at h
          obtain ⟨rfl, rfl⟩ := h
          simp [tokens, error?, Cursor.tokens_of_some hNext]

theorem next_none {supply rest : Supply} (h : supply.next = (.ok none, rest)) :
    supply.tokens = [] ∧ supply.error? = none := by
  cases supply with
  | listed tokens => cases tokens <;> simp_all [next, Supply.tokens, error?]
  | live cursor =>
      match hNext : cursor.nextToken with
      | (.error e, d) => simp [next, hNext] at h
      | (.ok none, d) => simp [tokens, error?, Cursor.tokens_of_none hNext]
      | (.ok (some u), d) => simp [next, hNext] at h

theorem next_error {supply rest : Supply} {e : ScanError}
    (h : supply.next = (.error e, rest)) :
    supply.tokens = [] ∧ supply.error? = some e ∧ rest = .listed [] := by
  cases supply with
  | listed tokens => cases tokens <;> simp [next] at h
  | live cursor =>
      match hNext : cursor.nextToken with
      | (.error e', d) =>
          simp only [next, hNext, Prod.mk.injEq, Except.error.injEq] at h
          obtain ⟨rfl, rfl⟩ := h
          simp [tokens, error?, Cursor.tokens_of_error hNext]
      | (.ok none, d) => simp [next, hNext] at h
      | (.ok (some u), d) => simp [next, hNext] at h

end Supply

theorem Supply.length_tokens_le (supply : Supply) : supply.tokens.length ≤ supply.budget := by
  cases supply with
  | listed tokens => exact Nat.le_refl _
  | live cursor => exact cursor.length_tokens_le

namespace Reader

/-- The tokens to come. -/
def rest (r : Reader) : List Token :=
  r.buffer ++ if r.sentinel?.isSome then [] else r.supply.tokens

/-- The error after the tokens, as long as it has not been met. -/
def error? (r : Reader) : Option ScanError :=
  if r.sentinel?.isSome then none else r.supply.error?

/-- The end-of-input token after the tokens. -/
def ending (r : Reader) : Token :=
  r.sentinel?.getD (sentinelAfter (r.supply.tokens.getLast?.or r.last?))

def next (r : Reader) : Token :=
  r.rest.headD r.ending

/-- Whether the next token has been looked at, or the end has been met. -/
def Settled (r : Reader) : Prop :=
  r.buffer ≠ [] ∨ r.sentinel?.isSome = true

/-- Whether the second reader is left of the first one when the tokens have been taken. -/
structure Takes (r : Reader) (xs : List Token) (r' : Reader) : Prop where
  rest_eq : r.rest = xs ++ r'.rest
  error_eq : r'.error? = r.error?
  ending_eq : r'.ending = r.ending
  taken_eq : r'.taken = r.taken + xs.length

theorem Takes.refl (r : Reader) : r.Takes [] r :=
  ⟨rfl, rfl, rfl, rfl⟩

theorem Takes.trans {r s t : Reader} {xs ys : List Token} (h : r.Takes xs s) (h' : s.Takes ys t) :
    r.Takes (xs ++ ys) t where
  rest_eq := by rw [h.rest_eq, h'.rest_eq, List.append_assoc]
  error_eq := h'.error_eq.trans h.error_eq
  ending_eq := h'.ending_eq.trans h.ending_eq
  taken_eq := by rw [h'.taken_eq, h.taken_eq, List.length_append, Nat.add_assoc]

theorem Takes.rest_of_nil {r r' : Reader} (h : r.Takes [] r') : r'.rest = r.rest :=
  h.rest_eq.symm

theorem Takes.next_of_nil {r r' : Reader} (h : r.Takes [] r') : r'.next = r.next := by
  rw [next, next, h.rest_of_nil, h.ending_eq]

theorem Takes.kind_ending {r r' : Reader} {xs : List Token} (h : r.Takes xs r')
    (hend : r.ending.kind = .endOfInput) : r'.ending.kind = .endOfInput := by
  rwa [h.ending_eq]

theorem Takes.length_rest {r r' : Reader} {xs : List Token} (h : r.Takes xs r') :
    r.rest.length = xs.length + r'.rest.length := by
  rw [h.rest_eq, List.length_append]

theorem Takes.length_lt {r r' : Reader} {t : Token} (h : r.Takes [t] r') :
    r'.rest.length < r.rest.length := by
  rw [h.length_rest, List.length_singleton]
  omega

theorem next_of_cons {r : Reader} {t : Token} {ts : List Token} (h : r.rest = t :: ts) :
    r.next = t := by
  simp [next, h]

theorem Takes.next_of_singleton {r r' : Reader} {t : Token} (h : r.Takes [t] r') :
    r'.next = r.rest[1]?.getD r.ending := by
  rw [next, h.rest_eq, h.ending_eq, List.headD_eq_head?_getD, List.head?_eq_getElem?]
  rfl

theorem rest_eq_cons {r : Reader} (hend : r.ending.kind = .endOfInput)
    (hnext : r.next.kind ≠ .endOfInput) : ∃ ts, r.rest = r.next :: ts := by
  cases hrest : r.rest with
  | nil => simp [next, hrest, hend] at hnext
  | cons t ts => exact ⟨ts, by rw [next_of_cons hrest]⟩

theorem length_rest_le (r : Reader) : r.rest.length ≤ r.budget := by
  have hle := r.supply.length_tokens_le
  simp only [rest, budget, List.length_append]
  split
  · simp
  · omega

theorem kind_ending {r : Reader} (h : r.sentinel? = none) : r.ending.kind = .endOfInput := by
  rw [ending, h]
  rfl

/-- Whether the second reader is left of the first one when the error of the text has been met: no
token is lost, and the error does not come back. -/
structure Breaks (r : Reader) (e : ScanError) (r' : Reader) : Prop where
  error_eq : r.error? = some e
  rest_eq : r'.rest = r.rest
  error_after : r'.error? = none
  ending_eq : r'.ending = r.ending
  taken_eq : r'.taken = r.taken

theorem Breaks.of_takes {r r' r'' : Reader} {e : ScanError} (h : r.Takes [] r')
    (h' : r'.Breaks e r'') : r.Breaks e r'' where
  error_eq := h.error_eq.symm.trans h'.error_eq
  rest_eq := h'.rest_eq.trans h.rest_of_nil
  error_after := h'.error_after
  ending_eq := h'.ending_eq.trans h.ending_eq
  taken_eq := h'.taken_eq.trans h.taken_eq

/-! ## Pulling tokens -/

theorem takes_of_pull {r r' : Reader} (hs : r.sentinel? = none) (h : r.pull = (.ok (), r')) :
    r.Takes [] r' ∧
      (r'.buffer.length = r.buffer.length + 1 ∨ r'.sentinel?.isSome = true) := by
  match hNext : r.supply.next with
  | (.error e, rest) => simp [pull, hNext] at h
  | (.ok none, rest) =>
      obtain ⟨htokens, herror⟩ := Supply.next_none hNext
      simp only [pull, hNext, Prod.mk.injEq, true_and] at h
      subst h
      exact ⟨⟨by simp [Reader.rest, hs, htokens], by simp [error?, hs, herror],
        by simp [ending, hs, htokens], rfl⟩, Or.inr rfl⟩
  | (.ok (some t), rest) =>
      obtain ⟨htokens, herror⟩ := Supply.next_some hNext
      simp only [pull, hNext, Prod.mk.injEq, true_and] at h
      subst h
      refine ⟨⟨by simp [Reader.rest, receive, hs, htokens], by simp [error?, receive, hs, herror],
        ?_, rfl⟩, Or.inl (by simp [receive])⟩
      simp only [ending, receive, hs, htokens, Option.getD_none, List.getLast?_cons]
      cases rest.tokens.getLast? <;> rfl

theorem breaks_of_pull {r r' : Reader} {e : ScanError} (hs : r.sentinel? = none)
    (h : r.pull = (.error e, r')) : r.Breaks e r' ∧ r.rest.length = r.buffer.length := by
  match hNext : r.supply.next with
  | (.ok none, rest) => simp [pull, hNext] at h
  | (.ok (some t), rest) => simp [pull, hNext] at h
  | (.error e', rest) =>
      obtain ⟨htokens, herror, hrest⟩ := Supply.next_error hNext
      simp only [pull, hNext, Prod.mk.injEq, Except.error.injEq] at h
      obtain ⟨rfl, rfl⟩ := h
      subst hrest
      exact ⟨⟨by simp [error?, hs, herror], by simp [Reader.rest, hs, htokens],
        by simp [error?], by simp [ending, hs, htokens], rfl⟩,
        by simp [Reader.rest, hs, htokens]⟩

theorem takes_of_pullMany {n : Nat} {r r' : Reader} (h : pullMany n r = (.ok (), r')) :
    r.Takes [] r' ∧ (r.buffer.length + n ≤ r'.buffer.length ∨ r'.sentinel?.isSome = true) := by
  induction n generalizing r with
  | zero =>
      cases h
      exact ⟨Takes.refl _, Or.inl (Nat.le_refl _)⟩
  | succ n ih =>
      rw [pullMany] at h
      split at h
      · next hs =>
        cases h
        exact ⟨Takes.refl _, Or.inr hs⟩
      · next hs =>
        have hnone : r.sentinel? = none := by simpa using hs
        split at h
        · next middle hpull =>
          obtain ⟨htakes, hmore⟩ := takes_of_pull hnone hpull
          obtain ⟨htakes', hmore'⟩ := ih h
          refine ⟨htakes.trans htakes', ?_⟩
          rcases hmore with hlen | hsome
          · exact hmore'.imp_left fun hle => by omega
          · have hsame : r' = middle := by
              cases n with
              | zero => exact (congrArg Prod.snd h).symm
              | succ n =>
                  rw [pullMany, if_pos hsome] at h
                  exact (congrArg Prod.snd h).symm
            exact Or.inr (hsame ▸ hsome)
        · cases h

theorem breaks_of_pullMany {n : Nat} {r r' : Reader} {e : ScanError}
    (h : pullMany n r = (.error e, r')) :
    r.Breaks e r' ∧ r.rest.length < r.buffer.length + n := by
  induction n generalizing r with
  | zero => cases h
  | succ n ih =>
      rw [pullMany] at h
      split at h
      · cases h
      · next hs =>
        have hnone : r.sentinel? = none := by simpa using hs
        split at h
        · next middle hpull =>
          obtain ⟨htakes, hmore⟩ := takes_of_pull hnone hpull
          obtain ⟨hbreaks, hlt⟩ := ih h
          refine ⟨Breaks.of_takes htakes hbreaks, ?_⟩
          have herror := hbreaks.error_eq
          rcases hmore with hlen | hsome
          · rw [htakes.rest_of_nil] at hlt
            omega
          · simp [error?, hsome] at herror
        · next e' middle hpull =>
          obtain ⟨hbreaks, hlen⟩ := breaks_of_pull hnone hpull
          cases h
          exact ⟨hbreaks, by omega⟩

theorem look_eq {r : Reader} {k : Nat}
    (h : k < r.buffer.length ∨ r.sentinel?.isSome = true) :
    r.look k = r.rest[k]?.getD r.ending := by
  by_cases hk : k < r.buffer.length
  · simp [look, rest, List.getElem?_append_left hk, List.getElem?_eq_getElem hk]
  · have hsome := h.resolve_left hk
    obtain ⟨s, hs⟩ := Option.isSome_iff_exists.mp hsome
    simp [look, rest, ending, hs, hk]

theorem rest_of_settled {r : Reader} (h : r.Settled) (hnil : r.rest = []) :
    r.sentinel?.isSome = true := by
  refine h.resolve_left fun hbuffer => ?_
  simp [rest, hbuffer] at hnil

/-- Where the end of the input has been met there is no error after it. -/
theorem error_of_settled {r : Reader} (h : r.Settled) (hnil : r.rest = []) : r.error? = none := by
  simp [error?, rest_of_settled h hnil]

end Reader

end Reckoner
