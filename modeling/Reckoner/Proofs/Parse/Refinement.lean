import Reckoner.Proofs.Parse.Ensures

/-!
# A reader is a place in a list of tokens

What a reader pulls, buffers and remembers cannot be seen from outside. Asked for tokens in any
order, it answers as a place in a fixed list of tokens does: by the token at a distance from the
place, or by the end-of-input token that belongs to the list. If the tokens come from a text with an
error, the first request that needs a token after the last one is answered by the error, once; the
place stays, and from then on the text is as good as a list that has ended.
-/

namespace Reckoner

/-! ## The end of a supply -/

namespace Cursor

theorem takeWhile_stops {p : Option Char → Bool} {c d : Cursor} {characters : List Char}
    (h : c.takeWhile p = (.ok characters, d)) : d.atEnd = true ∨ p (d.peek 0) = false := by
  fun_induction takeWhile p c generalizing characters with
  | case1 c hstop =>
      cases h
      simpa using hstop
  | case2 => cases h
  | case3 c _ character e _ _ f hrest ih =>
      cases h
      exact ih hrest
  | case4 => cases h

theorem skipGap_stops {c d : Cursor} (h : c.skipGap = (.ok (), d)) :
    d.atEnd = true ∨ isGap (d.peek 0) = false := by
  fun_induction skipGap c with
  | case1 => cases h
  | case2 => cases h
  | case3 => cases h
  | case4 c _ e _ _ _ f _ g _ ih => exact ih h
  | case5 c _ e hgap =>
      cases h
      exact takeWhile_stops hgap

/-- A text that has ended stays so. -/
theorem nextToken_of_none {c d : Cursor} (h : c.nextToken = (.ok none, d)) :
    d.nextToken = (.ok none, d) := by
  unfold nextToken at h
  split at h
  · cases h
  · next e hskip =>
    split at h
    · next hpeek =>
      cases h
      -- Where the gap ends and no character is ahead, the text has ended.
      have hend : d.atEnd = true := by
        simpa [hpeek, isGap] using skipGap_stops hskip
      have hstay : d.skipGap = (.ok (), d) := by
        have htake : d.takeWhile isGap = (.ok [], d) := by
          rw [takeWhile, if_pos (by simp [hend])]
        rw [skipGap]
        split <;> simp_all
      rw [nextToken, hstay]
      simp only [hpeek]
    · split at h <;> cases h

end Cursor

theorem Supply.tokens_of_next_none {supply rest : Supply} (h : supply.next = (.ok none, rest)) :
    rest.tokens = [] ∧ rest.error? = none := by
  cases supply with
  | listed tokens =>
      cases tokens with
      | nil =>
          cases h
          exact ⟨rfl, rfl⟩
      | cons t ts => cases h
  | live cursor =>
      match hnext : cursor.nextToken with
      | (.error e, d) => simp [next, hnext] at h
      | (.ok (some t), d) => simp [next, hnext] at h
      | (.ok none, d) =>
          simp only [next, hnext, Prod.mk.injEq, true_and] at h
          subst h
          simp [tokens, error?, Cursor.tokens_of_none (Cursor.nextToken_of_none hnext)]

/-! ## Requests -/

/-- What a parser can be asked about its tokens. -/
inductive Request
  | current
  | peek (offset : Nat)
  | advance
  | accept (kinds : List Token.Kind)
  | expect (kinds : List Token.Kind)

abbrev Answer := Except ParseFailure (Option Token)

namespace Request

def ask : Request → Parse (Option Token)
  | .current => return some (← Parse.current)
  | .peek offset => return some (← Parse.peek offset)
  | .advance => return some (← Parse.advance)
  | .accept kinds => Parse.accept kinds
  | .expect kinds => return some (← Parse.expect kinds)

/-- The answers to requests one after the other, failing or not, and the state at the end. -/
def askAll {σ : Type} (ask : Request → σ → Answer × σ) : List Request → σ → List Answer × σ
  | [], s => ([], s)
  | request :: requests, s =>
    let (answer, s') := ask request s
    let (answers, s'') := askAll ask requests s'
    (answer :: answers, s'')

theorem askAll_cons {σ : Type} (ask : Request → σ → Answer × σ) (request : Request)
    (requests : List Request) (s : σ) :
    askAll ask (request :: requests) s =
      ((ask request s).1 :: (askAll ask requests (ask request s).2).1,
        (askAll ask requests (ask request s).2).2) :=
  rfl

end Request

/-- A place in a list of tokens, and the error after the list, as long as it has not been met. -/
@[ext] structure Place where
  taken : Nat
  error? : Option ScanError

namespace Place

section Asking

variable (ts : List Token) (p : Place)

/-- The token at a distance from the place, or the end-of-input token of the list. -/
def token (offset : Nat) : Token :=
  ts[p.taken + offset]?.getD (Reader.sentinelAfter ts.getLast?)

/-- The place after the next token; at the end of the list nothing changes. -/
def forward : Place :=
  if p.taken < ts.length then { p with taken := p.taken + 1 } else p

/-- Answers as given, unless this needs a token after the list and there is an error in its
place. -/
def unlessBroken (offset : Nat) (answer : Answer × Place) : Answer × Place :=
  match p.error? with
  | some e =>
    if ts.length ≤ p.taken + offset then (.error (.scan e), { p with error? := none }) else answer
  | none => answer

end Asking

/-- How a place in a list of tokens answers a request. -/
def ask (ts : List Token) (request : Request) (p : Place) : Answer × Place :=
  match request with
  | .current => p.unlessBroken ts 0 (.ok (some (p.token ts 0)), p)
  | .peek offset => p.unlessBroken ts offset (.ok (some (p.token ts offset)), p)
  | .advance => p.unlessBroken ts 0 (.ok (some (p.token ts 0)), p.forward ts)
  | .accept kinds =>
    p.unlessBroken ts 0 <|
      if kinds.contains (p.token ts 0).kind then (.ok (some (p.token ts 0)), p.forward ts)
      else (.ok none, p)
  | .expect kinds =>
    p.unlessBroken ts 0 <|
      if kinds.contains (p.token ts 0).kind then (.ok (some (p.token ts 0)), p.forward ts)
      else (.error (.parse (.unexpected (p.token ts 0))), p)

variable {ts : List Token} {p : Place}

theorem error?_forward : (p.forward ts).error? = p.error? := by
  unfold forward
  split <;> rfl

/-- Whether an answer is the error that was still to be met, or is no such error and leaves it. -/
def Spends (p : Place) (x : Answer × Place) : Prop :=
  (∃ e, p.error? = some e ∧ x = (.error (.scan e), { p with error? := none })) ∨
    (∀ e, x.1 ≠ .error (.scan e)) ∧ x.2.error? = p.error?

theorem spends_unlessBroken {offset : Nat} {answer : Answer × Place}
    (hanswer : ∀ e, answer.1 ≠ .error (.scan e)) (herror : answer.2.error? = p.error?) :
    p.Spends (p.unlessBroken ts offset answer) := by
  unfold unlessBroken
  split
  · next e he =>
    split
    · exact Or.inl ⟨e, he, rfl⟩
    · exact Or.inr ⟨hanswer, herror⟩
  · exact Or.inr ⟨hanswer, herror⟩

theorem spends_ask (ts : List Token) (request : Request) (p : Place) :
    p.Spends (p.ask ts request) := by
  cases request with
  | current => exact spends_unlessBroken (by simp) rfl
  | peek offset => exact spends_unlessBroken (by simp) rfl
  | advance => exact spends_unlessBroken (by simp) error?_forward
  | accept kinds =>
      apply spends_unlessBroken
      · split <;> simp
      · split
        · exact error?_forward
        · rfl
  | expect kinds =>
      apply spends_unlessBroken
      · split <;> simp
      · split
        · exact error?_forward
        · rfl

theorem error?_askAll (ts : List Token) (requests : List Request) (h : p.error? = none) :
    (Request.askAll (ask ts) requests p).2.error? = none := by
  induction requests generalizing p with
  | nil => exact h
  | cons request requests ih =>
      apply ih
      rcases spends_ask ts request p with ⟨e, he, -⟩ | ⟨-, hsame⟩
      · rw [h] at he
        cases he
      · exact hsame.trans h

/-- The error is met once: it is the one after the list, and it is gone afterwards. -/
theorem error_met {requests : List Request} {e : ScanError}
    (h : .error (.scan e) ∈ (Request.askAll (ask ts) requests p).1) :
    p.error? = some e ∧ (Request.askAll (ask ts) requests p).2.error? = none := by
  induction requests generalizing p with
  | nil => cases h
  | cons request requests ih =>
      rw [Request.askAll_cons] at h ⊢
      rcases spends_ask ts request p with ⟨e', he', hask⟩ | ⟨hother, hsame⟩
      · have hgone : (p.ask ts request).2.error? = none := by rw [hask]
        refine ⟨?_, error?_askAll ts requests hgone⟩
        rcases List.mem_cons.mp h with hfirst | hlater
        · rw [hask] at hfirst
          cases hfirst
          exact he'
        · have hagain := (ih hlater).1
          rw [hgone] at hagain
          cases hagain
      · have hlater := (List.mem_cons.mp h).resolve_left fun hfirst => hother e hfirst.symm
        rw [← hsame]
        exact ih hlater

end Place

namespace Reader

/-! ## Readers at a place -/

/-- Whether a reader is at a place in a list of tokens: what it has pulled and what is left of its
supply make up the tokens from the place on, and its end-of-input token, once there is one, is that
of the list. -/
structure At (ts : List Token) (p : Place) (r : Reader) : Prop where
  taken_eq : r.taken = p.taken
  taken_le : p.taken ≤ ts.length
  tokens_eq : r.buffer ++ r.supply.tokens = ts.drop p.taken
  error_eq : r.supply.error? = p.error?
  last_eq : r.supply.tokens.getLast?.or r.last? = ts.getLast?
  ended : ∀ s, r.sentinel? = some s →
    s = sentinelAfter ts.getLast? ∧ r.supply.tokens = [] ∧ r.supply.error? = none

variable {ts : List Token} {p : Place} {r : Reader}

theorem at_ofSupply (supply : Supply) :
    (ofSupply supply).At supply.tokens ⟨0, supply.error?⟩ where
  taken_eq := rfl
  taken_le := Nat.zero_le _
  tokens_eq := rfl
  error_eq := rfl
  last_eq := Option.or_none
  ended s hs := by cases hs

theorem At.rest_eq (h : r.At ts p) : r.rest = ts.drop p.taken := by
  rw [← h.tokens_eq, rest]
  cases hs : r.sentinel? with
  | none => rfl
  | some s => rw [(h.ended s hs).2.1]; rfl

theorem At.error?_eq (h : r.At ts p) : r.error? = p.error? := by
  rw [← h.error_eq, error?]
  cases hs : r.sentinel? with
  | none => rfl
  | some s => rw [(h.ended s hs).2.2]; rfl

theorem At.ending_eq (h : r.At ts p) : r.ending = sentinelAfter ts.getLast? := by
  rw [ending, h.last_eq]
  cases hs : r.sentinel? with
  | none => rfl
  | some s => exact (h.ended s hs).1

theorem At.token_eq (h : r.At ts p) (k : Nat) : r.rest[k]?.getD r.ending = p.token ts k := by
  rw [h.rest_eq, h.ending_eq, List.getElem?_drop, Place.token]

theorem At.next_eq (h : r.At ts p) : r.next = p.token ts 0 := by
  rw [← h.token_eq, next, List.headD_eq_head?_getD, List.head?_eq_getElem?]

/-! ## Looking ahead -/

theorem At.pull (h : r.At ts p) (hs : r.sentinel? = none) :
    match r.pull with
    | (.ok (), r') => r'.At ts p
    | (.error _, r') => r'.At ts { p with error? := none } := by
  obtain ⟨htaken, hle, htokens, herror, hlast, -⟩ := h
  match hnext : r.supply.next with
  | (.ok (some t), rest) =>
      obtain ⟨hcons, hsame⟩ := Supply.next_some hnext
      simp only [Reader.pull, hnext]
      refine ⟨htaken, hle, ?_, hsame.symm.trans herror, ?_, fun s hs' => ?_⟩
      · rw [← htokens, hcons]
        exact List.append_assoc _ _ _
      · rw [← hlast, hcons, List.getLast?_cons]
        cases hrest : rest.tokens.getLast? <;> simp [receive, hrest]
      · exact absurd (hs.symm.trans hs') (by simp)
  | (.ok none, rest) =>
      obtain ⟨hnil, hnone⟩ := Supply.next_none hnext
      obtain ⟨hnil', hnone'⟩ := Supply.tokens_of_next_none hnext
      rw [hnil] at htokens hlast
      simp only [Reader.pull, hnext]
      refine ⟨htaken, hle, by simpa [hnil'] using htokens, ?_, by simpa [hnil'] using hlast, ?_⟩
      · rw [hnone', ← herror, hnone]
      · rintro s ⟨⟩
        exact ⟨congrArg sentinelAfter hlast, hnil', hnone'⟩
  | (.error e, rest) =>
      obtain ⟨hnil, -, rfl⟩ := Supply.next_error hnext
      rw [hnil] at htokens hlast
      simp only [Reader.pull, hnext]
      refine ⟨htaken, hle, htokens, rfl, hlast, fun s hs' => ?_⟩
      exact absurd (hs.symm.trans hs') (by simp)

theorem At.pullMany (h : r.At ts p) (n : Nat) :
    match pullMany n r with
    | (.ok (), r') => r'.At ts p
    | (.error _, r') => r'.At ts { p with error? := none } := by
  induction n generalizing r with
  | zero => exact h
  | succ n ih =>
      rw [Reader.pullMany]
      by_cases hs : r.sentinel?.isSome = true
      · rw [if_pos hs]
        exact h
      · rw [if_neg hs]
        have hpull := h.pull (by simpa using hs)
        rcases hstep : r.pull with ⟨e | ⟨⟩, r'⟩
        · rw [hstep] at hpull
          exact hpull
        · rw [hstep] at hpull
          exact ih hpull

structure Agrees (ts : List Token) (x : Answer × Reader) (y : Answer × Place) : Prop where
  answer_eq : x.1 = y.1
  stays : x.2.At ts y.2

/-- Looking ahead and going on from there is what a place does that meets the error or goes on. -/
theorem At.agrees_peek (h : r.At ts p) {k : Nat} {next : Token → Parse (Option Token)}
    {answer : Answer × Place}
    (hnext : ∀ r', r'.At ts p → (k < r'.buffer.length ∨ r'.sentinel?.isSome = true) →
      Agrees ts (next (p.token ts k) r') answer) :
    Agrees ts ((Parse.peek k >>= next) r) (p.unlessBroken ts k answer) := by
  have hfilled := h.pullMany (k + 1 - r.buffer.length)
  have hlen : r.rest.length = ts.length - p.taken := by rw [h.rest_eq, List.length_drop]
  have hle := h.taken_le
  have hbuffer {q : Reader} : q.buffer.length ≤ q.rest.length := by simp [rest]
  rw [Parse.bind_apply, Parse.peek]
  rcases hfill : r.fill (k + 1) with ⟨e | ⟨⟩, r'⟩
  · obtain ⟨hbreaks, hlt⟩ := breaks_of_pullMany hfill
    rw [show Reader.pullMany _ r = (.error e, r') from hfill] at hfilled
    have hmore : r.buffer.length ≤ r.rest.length := hbuffer
    have herror : p.error? = some e := h.error?_eq.symm.trans hbreaks.error_eq
    have hanswer : p.unlessBroken ts k answer = (.error (.scan e), { p with error? := none }) := by
      simp only [Place.unlessBroken, herror]
      rw [if_pos (by omega)]
    rw [hanswer]
    exact ⟨rfl, hfilled⟩
  · obtain ⟨htakes, henough⟩ := takes_of_pullMany hfill
    rw [show Reader.pullMany _ r = (.ok (), r') from hfill] at hfilled
    have hlooked : k < r'.buffer.length ∨ r'.sentinel?.isSome = true :=
      henough.imp_left fun hmore => by omega
    -- An error that is still to be met lies behind what has been looked at.
    have hanswer : p.unlessBroken ts k answer = answer := by
      cases herror : p.error? with
      | none => simp only [Place.unlessBroken, herror]
      | some e =>
          have hnone : ¬ r'.sentinel?.isSome = true := by
            intro hsome
            have hsame := hfilled.error?_eq
            rw [error?, if_pos hsome, herror] at hsame
            cases hsame
          have hless := hlooked.resolve_right hnone
          have hmore : r'.buffer.length ≤ r'.rest.length := hbuffer
          rw [htakes.rest_of_nil] at hmore
          simp only [Place.unlessBroken, herror]
          rw [if_neg (by omega)]
    rw [hanswer]
    simp only [look_eq hlooked, hfilled.token_eq]
    exact hnext r' hfilled hlooked

theorem At.agrees_current (h : r.At ts p) {next : Token → Parse (Option Token)}
    {answer : Answer × Place}
    (hnext : ∀ r', r'.At ts p → r'.Settled → Agrees ts (next (p.token ts 0) r') answer) :
    Agrees ts ((Parse.current >>= next) r) (p.unlessBroken ts 0 answer) :=
  h.agrees_peek fun r' hr' hlooked => hnext r' hr' (hlooked.imp_left List.ne_nil_of_length_pos)

/-! ## Taking tokens -/

theorem At.drop (h : r.At ts p) (hsettled : r.Settled) : r.drop.At ts (p.forward ts) := by
  cases hbuffer : r.buffer with
  | nil =>
      have hsome := hsettled.resolve_left (not_not_intro hbuffer)
      obtain ⟨s, hs⟩ := Option.isSome_iff_exists.mp hsome
      have htokens := h.tokens_eq
      rw [hbuffer, (h.ended s hs).2.1, List.nil_append, eq_comm, List.drop_eq_nil_iff] at htokens
      have hdrop : r.drop = r := by simp [Reader.drop, hbuffer]
      rw [hdrop, Place.forward, if_neg (Nat.not_lt.mpr htokens)]
      exact h
  | cons t us =>
      obtain ⟨htaken, hle, htokens, herror, hlast, hended⟩ := h
      have hdrop : r.drop = { r with buffer := us, taken := r.taken + 1 } := by
        simp [Reader.drop, hbuffer]
      rw [hbuffer, List.cons_append] at htokens
      have hless : p.taken < ts.length := by
        apply Nat.lt_of_not_le
        intro hpast
        rw [List.drop_eq_nil_iff.mpr hpast] at htokens
        cases htokens
      rw [hdrop, Place.forward, if_pos hless]
      refine ⟨congrArg Nat.succ htaken, hless, ?_, herror, hlast, hended⟩
      rw [List.drop_eq_getElem_cons hless] at htokens
      exact (List.cons.inj htokens).2

/-- A reader at a place answers every request as the place does. -/
theorem At.agrees_ask (h : r.At ts p) (request : Request) :
    Agrees ts (request.ask r) (p.ask ts request) := by
  cases request with
  | current => exact h.agrees_current fun r' hr' _ => ⟨rfl, hr'⟩
  | peek offset => exact h.agrees_peek fun r' hr' _ => ⟨rfl, hr'⟩
  | advance =>
      have hask : Request.advance.ask =
          Parse.current >>= fun token s => (.ok (some token), s.drop) :=
        Parse.bind_assoc Parse.current _ _
      rw [hask]
      exact h.agrees_current fun r' hr' hsettled => ⟨rfl, hr'.drop hsettled⟩
  | accept kinds =>
      apply h.agrees_current
      intro r' hr' hsettled
      by_cases hkind : kinds.contains (p.token ts 0).kind = true
      · simp only [if_pos hkind, Parse.bind_apply, Parse.advance_of_settled hsettled,
          Parse.pure_apply, hr'.next_eq]
        exact ⟨rfl, hr'.drop hsettled⟩
      · simp only [if_neg hkind, Parse.pure_apply]
        exact ⟨rfl, hr'⟩
  | expect kinds =>
      -- What is done with the token that was accepted comes after looking at it just once.
      simp only [Request.ask, Parse.expect, Parse.accept, Parse.bind_assoc]
      apply h.agrees_current
      intro r' hr' hsettled
      by_cases hkind : kinds.contains (p.token ts 0).kind = true
      · simp only [if_pos hkind, Parse.bind_apply, Parse.advance_of_settled hsettled,
          Parse.pure_apply, hr'.next_eq]
        exact ⟨rfl, hr'.drop hsettled⟩
      · simp only [if_neg hkind, Parse.bind_apply, Parse.pure_apply,
          Parse.current_of_settled hsettled, hr'.next_eq]
        exact ⟨rfl, hr'⟩

theorem At.agrees_askAll (h : r.At ts p) (requests : List Request) :
    (Request.askAll Request.ask requests r).1 = (Request.askAll (Place.ask ts) requests p).1 ∧
      (Request.askAll Request.ask requests r).2.At ts
        (Request.askAll (Place.ask ts) requests p).2 := by
  induction requests generalizing r p with
  | nil => exact ⟨rfl, h⟩
  | cons request requests ih =>
      have hone := h.agrees_ask request
      obtain ⟨hanswers, hplace⟩ := ih hone.stays
      exact ⟨List.cons_eq_cons.mpr ⟨hone.answer_eq, hanswers⟩, hplace⟩

/-! ## The end-of-input token -/

theorem sentinel?_drop (r : Reader) : r.drop.sentinel? = r.sentinel? := by
  unfold drop
  split <;> rfl

theorem peek_of_isSome_sentinel (h : r.sentinel?.isSome = true) (k : Nat) :
    Parse.peek k r = (.ok (r.look k), r) := by
  have hfill : r.fill (k + 1) = (.ok (), r) := by
    rw [fill]
    cases k + 1 - r.buffer.length with
    | zero => rfl
    | succ n => rw [pullMany, if_pos h]
  rw [Parse.peek, hfill]

theorem sentinel?_ask {s : Token} (h : r.sentinel? = some s) (request : Request) :
    (request.ask r).2.sentinel? = some s := by
  have hsome : r.sentinel?.isSome = true := by rw [h, Option.isSome_some]
  have hdrop : r.drop.sentinel? = some s := (sentinel?_drop r).trans h
  have hcurrent := Parse.current_of_settled (Or.inr hsome)
  have hadvance := Parse.advance_of_settled (Or.inr hsome)
  cases request with
  | current =>
      rw [Request.ask, Parse.bind_apply, hcurrent]
      exact h
  | peek offset =>
      rw [Request.ask, Parse.bind_apply, peek_of_isSome_sentinel hsome]
      exact h
  | advance =>
      rw [Request.ask, Parse.bind_apply, hadvance]
      exact hdrop
  | accept kinds =>
      rw [Request.ask, Parse.accept, Parse.bind_apply, hcurrent]
      dsimp only
      split
      · rw [Parse.bind_apply, hadvance]
        exact hdrop
      · exact h
  | expect kinds =>
      simp only [Request.ask, Parse.expect, Parse.accept, Parse.bind_assoc]
      rw [Parse.bind_apply, hcurrent]
      dsimp only
      split
      · rw [Parse.bind_assoc, Parse.bind_apply, hadvance]
        exact hdrop
      · simp only [Parse.bind_apply, Parse.pure_apply, hcurrent]
        exact h

theorem sentinel?_askAll {s : Token} (h : r.sentinel? = some s) (requests : List Request) :
    (Request.askAll Request.ask requests r).2.sentinel? = some s := by
  induction requests generalizing r with
  | nil => exact h
  | cons request requests ih => exact ih (sentinel?_ask h request)

end Reader

/-- A reader is a place in the list of its tokens. To whatever requests, it gives the answers of the
place; the tokens that it has buffered, followed by those that are left of its supply, are those
from the place on. Its end-of-input token, once there is one, never changes, and stands right after
the last token. An error after the tokens is met at most once, and from then on, as well as if there
is none, further requests are answered as by a reader of the list that is at the same place. -/
theorem reader_refines_place (supply : Supply) (requests : List Request) :
    let ts := supply.tokens
    let read := Request.askAll Request.ask requests (Reader.ofSupply supply)
    let answers := read.1
    let r := read.2
    let walk := Request.askAll (Place.ask ts) requests ⟨0, supply.error?⟩
    let p := walk.2
    answers = walk.1 ∧
    r.taken = p.taken ∧ p.taken ≤ ts.length ∧ r.buffer ++ r.supply.tokens = ts.drop p.taken ∧
    (∀ s, r.sentinel? = some s →
      s.kind = .endOfInput ∧
        s.pos = (match ts.getLast? with
          | some last => ⟨last.pos.line, last.pos.col + last.length⟩
          | none => ⟨0, 0⟩) ∧
        s = Reader.sentinelAfter ts.getLast? ∧
        ∀ more, (Request.askAll Request.ask more r).2.sentinel? = some s) ∧
    (∀ e, .error (.scan e) ∈ answers → supply.error? = some e ∧ p.error? = none) ∧
    (p.error? = none → ∀ before r',
      (Request.askAll Request.ask before (Reader.ofTokens ts)).2 = r' → r'.taken = r.taken →
        ∀ more, (Request.askAll Request.ask more r).1 = (Request.askAll Request.ask more r').1) := by
  intro ts read answers r walk p
  obtain ⟨hanswers, hplace⟩ := (Reader.at_ofSupply supply).agrees_askAll requests
  refine ⟨hanswers, hplace.taken_eq, hplace.taken_le, hplace.tokens_eq, fun s hs => ?_,
    fun e he => ?_, fun hnone before r' hr' htaken more => ?_⟩
  · obtain ⟨rfl, -, -⟩ := hplace.ended s hs
    refine ⟨rfl, ?_, rfl, fun more => Reader.sentinel?_askAll hs more⟩
    cases ts.getLast? <;> rfl
  · have hwalk : .error (.scan e) ∈ walk.1 := hanswers ▸ he
    exact Place.error_met hwalk
  · -- Both readers are at the same place of the same list.
    have hplace' : r'.At ts (Request.askAll (Place.ask ts) before ⟨0, none⟩).2 :=
      hr' ▸ ((Reader.at_ofSupply (.listed ts)).agrees_askAll before).2
    have hsame : (Request.askAll (Place.ask ts) before ⟨0, none⟩).2 = p := by
      apply Place.ext
      · exact hplace'.taken_eq.symm.trans (htaken.trans hplace.taken_eq)
      · exact (Place.error?_askAll ts before rfl).trans hnone.symm
    rw [hsame] at hplace'
    exact (hplace.agrees_askAll more).1.trans (hplace'.agrees_askAll more).1.symm

end Reckoner
