import Reckoner.Proofs.Parse.Agreement
import Reckoner.Proofs.Parse.Correctness

/-!
# An end-of-input token among the tokens

A list of tokens may hold an end-of-input token of its own. For the parser the input ends there: it
goes in lockstep with the parser of the tokens before, and never pulls what comes after. Only the
token that an error at the end of the input shows is another one.
-/

namespace Reckoner

namespace Reader

variable {r : Reader} {pending more : List Token}

/-- Tokens at hand are pulled one after the other. -/
theorem pullMany_listed {n : Nat} (hsentinel : r.sentinel? = none)
    (hsupply : r.supply = .listed (pending ++ more)) (hn : n ≤ pending.length) :
    ∃ s, pullMany n r = (.ok (), s) ∧ s.sentinel? = none ∧
      s.supply = .listed (pending.drop n ++ more) ∧ s.buffer = r.buffer ++ pending.take n ∧
      s.taken = r.taken := by
  induction n generalizing r pending with
  | zero => exact ⟨r, rfl, hsentinel, by simpa using hsupply, by simp, rfl⟩
  | succ n ih =>
      obtain ⟨t, pending, rfl⟩ := List.exists_cons_of_length_pos (Nat.lt_of_lt_of_le n.succ_pos hn)
      have hpull : r.pull = (.ok (), r.receive t (.listed (pending ++ more))) := by
        simp [pull, hsupply, Supply.next]
      obtain ⟨s, hmany, hnone, hrest, hbuffer, htaken⟩ :=
        ih (r := r.receive t (.listed (pending ++ more))) hsentinel rfl (by simpa using hn)
      refine ⟨s, ?_, hnone, hrest, ?_, htaken⟩
      · rw [pullMany, hsentinel, hpull]
        exact hmany
      · rw [hbuffer, receive, List.take_succ_cons, List.append_assoc]
        rfl

/-- Whether the second reader has the end-of-input token and more tokens behind the ones that the
first reader has, and has pulled none of those behind it. -/
structure StopsAt (ts : List Token) (e : Token) (more : List Token) (r r' : Reader) : Prop where
  rest_eq : r.rest = ts.drop r.taken
  taken_le : r.taken ≤ ts.length
  error_eq : r.error? = none
  ending_eq : r.ending = sentinelAfter ts.getLast?
  taken_eq : r'.taken = r.taken
  sentinel_eq : r'.sentinel? = none
  supply_eq : ∃ pending, r'.supply = .listed (pending ++ more) ∧ r'.buffer ++ pending = r.rest ++ [e]

/-- Tokens that the parsers see at the same time: the same token of the list, or the end-of-input
token of each. -/
def Sees (ts : List Token) (e t t' : Token) : Prop :=
  (t ∈ ts ∧ t' = t) ∨ (t = sentinelAfter ts.getLast? ∧ t' = e)

namespace StopsAt

variable {ts : List Token} {e : Token} {r' s : Reader}

theorem ofTokens (ts : List Token) (e : Token) (more : List Token) :
    StopsAt ts e more (ofTokens ts) (ofTokens (ts ++ e :: more)) where
  rest_eq := rfl
  taken_le := Nat.zero_le _
  error_eq := rfl
  ending_eq := ending_ofTokens ts
  taken_eq := rfl
  sentinel_eq := rfl
  supply_eq := ⟨ts ++ [e], by simp [Reader.ofTokens, ofSupply], rfl⟩

theorem rest_eq' (h : StopsAt ts e more r r') : r'.rest = r.rest ++ e :: more := by
  obtain ⟨pending, hsupply, hbuffer⟩ := h.supply_eq
  simp only [rest, h.sentinel_eq, hsupply, Option.isSome_none, Bool.false_eq_true, if_false,
    Supply.tokens_listed]
  rw [← List.append_assoc, hbuffer, List.append_assoc]
  rfl

theorem of_looked (h : StopsAt ts e more r r') {s' : Reader} (htakes : r.Takes [] s)
    (htaken : s'.taken = r'.taken) (hsentinel : s'.sentinel? = none)
    (hsupply : ∃ pending, s'.supply = .listed (pending ++ more) ∧
      s'.buffer ++ pending = r.rest ++ [e]) : StopsAt ts e more s s' := by
  have hsame : s.taken = r.taken := htakes.taken_eq
  exact ⟨by rw [htakes.rest_of_nil, hsame, h.rest_eq], hsame ▸ h.taken_le,
    htakes.error_eq.trans h.error_eq, htakes.ending_eq.trans h.ending_eq,
    by rw [htaken, h.taken_eq, hsame], hsentinel, by rwa [htakes.rest_of_nil]⟩

theorem sees (h : StopsAt ts e more r r') {k : Nat} (hk : k ≤ r.rest.length) :
    Sees ts e (r.rest[k]?.getD r.ending) ((r.rest ++ e :: more)[k]?.getD r'.ending) := by
  rcases Nat.lt_or_eq_of_le hk with hlt | rfl
  · have hmem : r.rest[k] ∈ ts := by
      apply List.mem_of_mem_drop
      rw [← h.rest_eq]
      exact List.getElem_mem hlt
    left
    simpa [List.getElem?_append_left hlt, List.getElem?_eq_getElem hlt] using hmem
  · right
    simp [h.ending_eq]

theorem agree_peek (h : StopsAt ts e more r r') {k : Nat} (hk : k ≤ r.rest.length) :
    Parse.Agree (Sees ts e) (StopsAt ts e more) (Sees ts e) r.rest.length
      (Parse.peek k r) (Parse.peek k r') := by
  rcases Parse.peek_cases k r with ⟨s, hpeek, htakes, -⟩ | ⟨_, s, -, hbreaks, -⟩
  · obtain ⟨pending, hsupply, hbuffer⟩ := h.supply_eq
    have hlen := congrArg List.length hbuffer
    simp only [List.length_append, List.length_singleton] at hlen
    obtain ⟨s', hmany, hnone, hrest, hpulled, htaken⟩ := pullMany_listed
      (n := k + 1 - r'.buffer.length) h.sentinel_eq hsupply (by omega)
    have hstops : StopsAt ts e more s s' := by
      apply h.of_looked htakes htaken hnone
      refine ⟨_, hrest, ?_⟩
      rw [hpulled, List.append_assoc, List.take_append_drop, hbuffer]
    have hlooked : k < s'.buffer.length := by
      rw [hpulled, List.length_append, List.length_take]
      omega
    have hlook : s'.look k = (s.rest ++ e :: more)[k]?.getD s'.ending := by
      rw [look_eq (.inl hlooked), hstops.rest_eq']
    rw [hpeek, Parse.peek, fill, hmany, ← htakes.rest_of_nil, ← htakes.ending_eq]
    rw [← htakes.rest_of_nil] at hk
    dsimp only
    rw [hlook]
    exact .ok (hstops.sees hk) hstops (Nat.le_refl _)
  · have herror := hbreaks.error_eq
    rw [h.error_eq] at herror
    cases herror

theorem drop (h : StopsAt ts e more r r') (hsettled : r.Settled) (hsettled' : r'.Settled)
    (hend : r.ending.kind = .endOfInput) (hk : r.next.kind ≠ .endOfInput) :
    StopsAt ts e more r.drop r'.drop := by
  obtain ⟨us, hrest⟩ := rest_eq_cons hend hk
  have htakes := Parse.takes_drop_of_cons hsettled hrest
  obtain ⟨pending, hsupply, hbuffer⟩ := h.supply_eq
  have hwaits : r'.buffer ≠ [] := by
    rcases hsettled' with hbuffer' | hsome
    · exact hbuffer'
    · simp [h.sentinel_eq] at hsome
  obtain ⟨t, buffer, hcons⟩ := List.exists_cons_of_ne_nil hwaits
  have hrest' : r.drop.rest = us := by
    have hsplit := htakes.rest_eq
    rw [hrest] at hsplit
    exact (List.cons.inj hsplit).2.symm
  have hdrop : ts.drop r.taken = r.next :: us := h.rest_eq.symm.trans hrest
  have hless : r.taken < ts.length := by
    have hlen := congrArg List.length hdrop
    simp only [List.length_drop, List.length_cons] at hlen
    omega
  have hforward : r'.drop = { r' with buffer := buffer, taken := r'.taken + 1 } := by
    simp [Reader.drop, hcons]
  refine ⟨?_, ?_, htakes.error_eq.trans h.error_eq, htakes.ending_eq.trans h.ending_eq, ?_, ?_, ?_⟩
  · rw [hrest', htakes.taken_eq, List.length_singleton, ← List.tail_drop, hdrop, List.tail_cons]
  · rw [htakes.taken_eq]
    exact hless
  · rw [hforward, htakes.taken_eq, h.taken_eq]
    rfl
  · rw [hforward]
    exact h.sentinel_eq
  · rw [hforward, hrest']
    refine ⟨pending, hsupply, ?_⟩
    rw [hcons, hrest] at hbuffer
    exact (List.cons.inj hbuffer).2

end StopsAt

end Reader

namespace Parse

open Reader (StopsAt Sees)

variable {ts : List Token} {e : Token}

theorem lockstep_stopsAt (he : e.kind = .endOfInput) (more : List Token) :
    Lockstep (Sees ts e) (StopsAt ts e more) := by
  have hkind {r r' : Reader} (h : StopsAt ts e more r r') : r.ending.kind = .endOfInput := by
    rw [h.ending_eq]
    rfl
  constructor
  case kind_eq =>
    rintro t t' (⟨-, rfl⟩ | ⟨rfl, rfl⟩)
    · rfl
    · exact he
  case token_eq =>
    rintro t t' (⟨-, rfl⟩ | ⟨rfl, -⟩) hk
    · rfl
    · exact absurd rfl hk
  case kind_ending => exact hkind
  case length_le =>
    intro r r' h
    simp [h.rest_eq']
  case peek => exact fun k h hk => h.agree_peek hk
  case drop => exact fun h hsettled hsettled' hk => h.drop hsettled hsettled' (hkind h) hk
  case record =>
    intro r r' event h
    exact ⟨h.rest_eq, h.taken_le, h.error_eq, h.ending_eq, h.taken_eq, h.sentinel_eq, h.supply_eq⟩

/-- Tokens without an end are all taken when they are accepted. -/
theorem taken_of_accepted (hts : ∀ t ∈ ts, t.kind ≠ .endOfInput) {statements : List Tree}
    {r : Reader} (h : program (Reader.ofTokens ts) = (.ok statements, r)) :
    r.taken = ts.length := by
  obtain ⟨xs, hreads⟩ := (ensures_program (Reader.kind_ending_ofTokens ts)).of_ok h
  obtain ⟨-, rfl⟩ := hreads.takes_all hts
  exact Reader.taken_of_takes_ofTokens hreads.takes

end Parse

/-- An end-of-input token ends the program. Whatever stands behind it, the tokens before it are
accepted exactly if they are accepted alone, with the same statements, and then the parser stands
before the end-of-input token. None of the tokens behind it is ever pulled: those that were taken,
that wait, or that are still to be pulled before them make up the tokens up to the end. A failure is
the same as without it, but for an error at the end of the input, which has the same wording and
shows the end-of-input token of the list. -/
theorem explicit_end_of_program (ts rest : List Token) (e : Token)
    (hts : ∀ t ∈ ts, t.kind ≠ .endOfInput) (he : e.kind = .endOfInput) :
    let plain := Parse.program (Reader.ofTokens ts)
    let ended := Parse.program (Reader.ofTokens (ts ++ e :: rest))
    (∀ statements, ended.1 = .ok statements ↔ plain.1 = .ok statements) ∧
    (∀ statements, ended.1 = .ok statements → ended.2.taken = ts.length) ∧
    (∃ pending, ended.2.supply = .listed (pending ++ rest) ∧
      ts ++ [e] = (ts ++ [e]).take ended.2.taken ++ ended.2.buffer ++ pending) ∧
    (∀ error, plain.1 = .error (.parse error) → ∃ error', ended.1 = .error (.parse error') ∧
      error'.diagnostic.text = error.diagnostic.text ∧
      (error.token ∈ ts ∧ error' = error ∨
        error.token = Reader.sentinelAfter ts.getLast? ∧ error'.token = e)) ∧
    (∀ f, (∀ error, f ≠ .parse error) → (ended.1 = .error f ↔ plain.1 = .error f)) := by
  intro plain ended
  have hagree : Parse.Agree (Reader.Sees ts e) (Reader.StopsAt ts e rest) Eq _ plain ended :=
    (Parse.lockstep_stopsAt he rest).program _ _ (.ofTokens ts e rest)
  have hstops := hagree.related
  refine ⟨hagree.ok_iff, ?_, ?_, ?_, fun f hother => hagree.other_iff hother⟩
  · intro statements hended
    have hplain : plain = (.ok statements, plain.2) :=
      Prod.ext ((hagree.ok_iff statements).mp hended) rfl
    rw [hstops.taken_eq]
    exact Parse.taken_of_accepted hts hplain
  · obtain ⟨pending, hsupply, hbuffer⟩ := hstops.supply_eq
    refine ⟨pending, hsupply, ?_⟩
    rw [List.append_assoc, hbuffer, hstops.rest_eq, hstops.taken_eq,
      List.take_append_of_le_length hstops.taken_le, ← List.append_assoc, List.take_append_drop]
  · rintro ⟨problem, t⟩ hplain
    obtain ⟨t', hsees, hended⟩ := hagree.parse_error hplain
    refine ⟨⟨problem, t'⟩, hended, rfl, ?_⟩
    exact hsees.imp_left fun ⟨hmem, hsame⟩ => ⟨hmem, by rw [hsame]⟩

/-- A sum without its right operand, before an end-of-input token and another name. -/
theorem explicit_end_of_sum :
    let x : Token := ⟨.name, .text "x", ⟨1, 1⟩, 1⟩
    let plus : Token := ⟨.plus, .text "+", ⟨1, 2⟩, 1⟩
    let e : Token := ⟨.endOfInput, .text "EOF", ⟨7, 1⟩, 3⟩
    (∃ error, parseTokens [x, plus] = .error (.parse error) ∧ error.token.pos = ⟨1, 3⟩ ∧
      ∃ error', parseTokens [x, plus, e, x] = .error (.parse error') ∧
        error'.diagnostic.text = error.diagnostic.text ∧ error'.token = e) ∧
    parseTokens [x, e, plus] = .ok [.bare ⟨1, 1⟩ (.name ⟨1, 1⟩ "x")] := by
  intro x plus e
  have hplain : ∃ error, parseTokens [x, plus] = .error (.parse error) ∧
      error.token = Reader.sentinelAfter (some plus) :=
    ⟨_, rfl, rfl⟩
  obtain ⟨error, hplain, htoken⟩ := hplain
  obtain ⟨-, -, -, herror, -⟩ := explicit_end_of_program [x, plus] [x] e (by decide) (by decide)
  obtain ⟨error', hended, htext, ⟨hmem, -⟩ | ⟨-, hshown⟩⟩ := herror error hplain
  · rw [htoken] at hmem
    exact absurd hmem (by decide)
  · refine ⟨⟨error, hplain, by rw [htoken]; rfl, error', hended, htext, hshown⟩, ?_⟩
    exact ((explicit_end_of_program [x] [plus] e (by decide) (by decide)).1 _).mpr rfl

end Reckoner
