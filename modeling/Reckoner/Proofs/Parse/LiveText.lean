import Reckoner.Proofs.Parse.Agreement
import Reckoner.Proofs.Parse.Correctness

/-!
# Parsing a text while it is read

A text is split into tokens only as far as the parser asks for them. An error of the text is
therefore met only if the tokens before it are how some program starts; otherwise the parser has
refused one of them before. A text without an error is parsed like the list of its tokens.
-/

namespace Reckoner

open Grammar

/-! ## Tokens of a text -/

namespace Cursor

theorem lexical_of_punctuation {character : Char} {kind : Token.Kind} {value : Value}
    {pos : Position} (h : punctuation? character = some kind) :
    (Token.ofValue kind value pos).Lexical := by
  unfold punctuation? at h
  split at h <;> cases h <;> trivial

theorem lexical_of_word (word : String) (pos : Position) :
    (Token.ofValue (wordKind word) (.text word) pos).Lexical := by
  unfold wordKind
  split
  · trivial
  · exact ⟨word, rfl⟩

theorem lexical_of_readToken {c d : Cursor} {character : Char} {t : Token}
    (h : c.readToken character = (.ok t, d)) : t.Lexical := by
  unfold readToken at h
  split at h
  · unfold readNumber at h
    split at h
    · cases h
    · split at h
      · next value hvalue =>
        cases h
        exact ⟨value, rfl⟩
      · cases h
  · split at h
    · unfold readWord at h
      split at h
      · cases h
      · cases h
        exact lexical_of_word _ _
    · split at h
      · next kind hkind =>
        cases h
        exact lexical_of_punctuation hkind
      · cases h

theorem lexical_of_nextToken {c d : Cursor} {t : Token}
    (h : c.nextToken = (.ok (some t), d)) : t.Lexical := by
  unfold nextToken at h
  split at h
  · cases h
  · split at h
    · cases h
    · split at h
      · next hread =>
        cases h
        exact lexical_of_readToken hread
      · cases h

theorem lexical_of_mem_tokens (c : Cursor) : ∀ t ∈ c.tokens.tokens, t.Lexical := by
  match hNext : c.nextToken with
  | (.error e, d) => simp [tokens_of_error hNext]
  | (.ok none, d) => simp [tokens_of_none hNext]
  | (.ok (some t), d) =>
      have hless := remaining_nextToken_lt hNext
      rw [tokens_of_some hNext]
      exact List.forall_mem_cons.mpr ⟨lexical_of_nextToken hNext, lexical_of_mem_tokens d⟩
termination_by c.remaining

end Cursor

namespace Reader

variable (source : String)

@[simp] theorem error?_ofSource : (ofSource source).error? = (tokenize source).error? := rfl

@[simp] theorem kind_ending_ofSource : (ofSource source).ending.kind = .endOfInput :=
  kind_ending rfl

theorem alike_ofTokens (h : (tokenize source).error? = none) :
    (ofSource source).Alike (ofTokens (tokenize source).tokens) where
  rest_eq := rfl
  error_eq := by simp [h]
  ending_eq := rfl
  taken_eq := rfl
  kind_ending := kind_ending_ofSource source

end Reader

/-! ## Refusal and errors -/

/-- The place where tokens are refused is determined by them. -/
theorem refusal_unique {xs ys us vs : List Token} {x u : Token} {m n : State}
    (h : xs ++ x :: ys = us ++ u :: vs) (hm : State.run .fresh xs = some m)
    (hn : State.run .fresh us = some n) (hx : m.step x = none) (hu : n.step u = none) :
    xs = us ∧ x = u ∧ m = n := by
  rcases append_cons_eq_append_cons h with ⟨zs, rfl, -⟩ | ⟨rfl, rfl, -⟩ | ⟨zs, rfl, -⟩
  · exact absurd (viable_iff_run.mpr ⟨m, hm⟩) (Parse.not_viable_of_step hn hu zs)
  · refine ⟨rfl, rfl, ?_⟩
    rw [hm] at hn
    exact Option.some.inj hn
  · exact absurd (viable_iff_run.mpr ⟨n, hn⟩) (Parse.not_viable_of_step hm hx zs)

namespace Parse

variable {r : Reader} (hend : r.ending.kind = .endOfInput) (hlex : ∀ t ∈ r.rest, t.Lexical)
  (hnesting : nesting r.rest ≤ nestingLimit)

include hend hlex hnesting

/-- A token that no program has there is refused, whatever comes after it. -/
theorem program_of_refusal {xs ys : List Token} {t : Token} {m : State}
    (hrest : r.rest = xs ++ t :: ys) (hrun : State.run .fresh xs = some m)
    (hstep : m.step t = none) :
    ∃ r', program r = (.error (.parse (m.complaint t)), r') ∧ r.Takes xs r' := by
  have hstuck {s : State} : ¬ State.run .fresh r.rest = some s := by
    intro hs
    rw [hrest] at hs
    exact not_viable_of_step hrun hstep ys (viable_iff_run.mpr ⟨s, hs⟩)
  match hprogram : program r with
  | (outcome, r') =>
      cases program_ends hend hnesting hprogram with
      | accepted hreads =>
          have hall := (hreads.takes_all fun t ht => (hlex t ht).kind_ne_endOfInput).2
          obtain ⟨s, hs, -⟩ := hreads.run
          exact absurd (hall ▸ hs) hstuck
      | refused hrest' htakes hrun' hstep' =>
          obtain ⟨rfl, rfl, rfl⟩ := refusal_unique (hrest.symm.trans hrest') hrun hrun' hstep hstep'
          exact ⟨r', rfl, htakes⟩
      | unfinished _ _ hs _ => exact absurd hs hstuck
      | broken _ hs => exact absurd hs hstuck
      | @unusable u f _ hu hk hvalue => exact absurd hvalue ((hlex u hu).usable hk f)

/-- An error of the text is met if the tokens before it are how some program starts. -/
theorem program_of_broken {e : ScanError} {m : State} (herror : r.error? = some e)
    (hrun : State.run .fresh r.rest = some m) : ∃ r', program r = (.error (.scan e), r') := by
  match hprogram : program r with
  | (outcome, r') =>
      cases program_ends hend hnesting hprogram with
      | accepted hreads =>
          have hnil := (hreads.takes_all fun t ht => (hlex t ht).kind_ne_endOfInput).1
          have hnone := Reader.error_of_settled hreads.settled hnil
          rw [hreads.takes.error_eq, herror] at hnone
          cases hnone
      | refused hrest _ hxs hstep =>
          rw [hrest] at hrun
          exact absurd (viable_iff_run.mpr ⟨m, hrun⟩) (not_viable_of_step hxs hstep _)
      | unfinished hnone _ _ _ =>
          rw [herror] at hnone
          cases hnone
      | broken herror' _ =>
          rw [herror] at herror'
          cases herror'
          exact ⟨r', rfl⟩
      | @unusable u f _ hu hk hvalue => exact absurd hvalue ((hlex u hu).usable hk f)

end Parse

theorem exists_run_of_viable {ts : List Token} (h : ∀ j < ts.length, Viable (ts.take (j + 1))) :
    ∃ m, State.run .fresh ts = some m := by
  cases hlen : ts.length with
  | zero => exact ⟨.fresh, by rw [List.eq_nil_of_length_eq_zero hlen]; rfl⟩
  | succ n =>
      have hviable := h n (by omega)
      rw [← hlen, List.take_length] at hviable
      exact viable_iff_run.mp hviable

section Text

variable {source : String} {ts : List Token} (hts : (tokenize source).tokens = ts) {e : ScanError}
  (herror : (tokenize source).error? = some e) (hnesting : nesting ts ≤ Parse.nestingLimit)

include hts herror hnesting

theorem source_refused {k : Nat} (hk : k < ts.length) (hbad : ¬ Viable (ts.take (k + 1)))
    (hleast : ∀ j < k, Viable (ts.take (j + 1))) :
    ∃ error r, Parse.program (Reader.ofSource source) = (.error (.parse error), r) ∧
      error.token = ts[k] ∧ r.taken = k ∧ r.error? = some e ∧
      parseTokens ts = .error (.parse error) := by
  have hlex : ∀ t ∈ ts, t.Lexical := hts ▸ Cursor.lexical_of_mem_tokens (Cursor.start source)
  have hrest : (Reader.ofSource source).rest = ts := hts
  have hsplit : ts = ts.take k ++ ts[k] :: ts.drop (k + 1) := by simp
  have hlen : (ts.take k).length = k := by simp [hk.le]
  obtain ⟨m, hrun⟩ : ∃ m, State.run .fresh (ts.take k) = some m := by
    refine exists_run_of_viable fun j hj => ?_
    rw [hlen] at hj
    rw [List.take_take, Nat.min_eq_left hj]
    exact hleast j hj
  have hstep : m.step ts[k] = none := by
    rw [Option.eq_none_iff_forall_ne_some]
    intro s hs
    refine hbad (viable_iff_run.mpr ⟨s, ?_⟩)
    rw [List.take_add_one, List.getElem?_eq_getElem hk]
    exact State.run_trans hrun (State.run_singleton hs)
  obtain ⟨r, hprogram, htakes⟩ := Parse.program_of_refusal (Reader.kind_ending_ofSource source)
    (hrest ▸ hlex) (hrest ▸ hnesting) (hrest.trans hsplit) hrun hstep
  obtain ⟨r', hprogram', -⟩ := Parse.program_of_refusal (Reader.kind_ending_ofTokens ts) hlex
    hnesting hsplit hrun hstep
  refine ⟨m.complaint ts[k], r, hprogram, State.complaint_token m _, ?_, ?_, ?_⟩
  · rw [htakes.taken_eq, hlen]
    exact Nat.zero_add k
  · rw [htakes.error_eq]
    exact herror
  · exact congrArg Prod.fst hprogram'

theorem source_broken (hall : ∀ k < ts.length, Viable (ts.take (k + 1))) :
    (parseSource source).1 = .error (.scan e) := by
  have hlex : ∀ t ∈ ts, t.Lexical := hts ▸ Cursor.lexical_of_mem_tokens (Cursor.start source)
  have hrest : (Reader.ofSource source).rest = ts := hts
  obtain ⟨m, hrun⟩ := exists_run_of_viable hall
  obtain ⟨r, hprogram⟩ := Parse.program_of_broken (Reader.kind_ending_ofSource source)
    (hrest ▸ hlex) (hrest ▸ hnesting) herror (hrest ▸ hrun)
  exact congrArg Prod.fst hprogram

end Text

/-- The first error wins. A text with an error is never accepted: if one of the tokens before the
error is the first that no program has there, it is refused as in the list of the tokens and the
error is still ahead; if there is no such token, the error is reported. A text without an error is
parsed like the list of its tokens. -/
theorem first_error_wins (source : String) (ts : List Token)
    (hts : (tokenize source).tokens = ts) :
    (∀ e, (tokenize source).error? = some e → nesting ts ≤ Parse.nestingLimit →
      (∀ k, ∀ hk : k < ts.length, ¬ Viable (ts.take (k + 1)) →
        (∀ j < k, Viable (ts.take (j + 1))) →
          ∃ error r, Parse.program (Reader.ofSource source) = (.error (.parse error), r) ∧
            error.token = ts[k] ∧ r.taken = k ∧ r.error? = some e ∧
            parseTokens ts = .error (.parse error)) ∧
      ((∀ k < ts.length, Viable (ts.take (k + 1))) →
        (parseSource source).1 = .error (.scan e)) ∧
      (∀ statements, (parseSource source).1 ≠ .ok statements) ∧
      ∀ error, (parseSource source).1 = .error (.parse error) →
        error.token.kind ≠ .endOfInput) ∧
    ((tokenize source).error? = none → (parseSource source).1 = parseTokens ts) := by
  refine ⟨fun e herror hnesting => ?_, fun hnone => ?_⟩
  · have hlex : ∀ t ∈ ts, t.Lexical := hts ▸ Cursor.lexical_of_mem_tokens (Cursor.start source)
    -- Either there is a first token that is refused, or the error is reported.
    have houtcome : (∃ error, (parseSource source).1 = .error (.parse error) ∧ error.token ∈ ts) ∨
        (parseSource source).1 = .error (.scan e) := by
      by_cases hall : ∀ k < ts.length, Viable (ts.take (k + 1))
      · exact Or.inr (source_broken hts herror hnesting hall)
      · push Not at hall
        classical
        obtain ⟨hk, hbad⟩ := Nat.find_spec hall
        have hleast (j : Nat) (hj : j < Nat.find hall) : Viable (ts.take (j + 1)) := by
          by_contra hnot
          exact Nat.find_min hall hj ⟨hj.trans hk, hnot⟩
        obtain ⟨error, r, hprogram, htoken, -⟩ :=
          source_refused hts herror hnesting hk hbad hleast
        exact Or.inl ⟨error, congrArg Prod.fst hprogram, htoken ▸ List.getElem_mem hk⟩
    refine ⟨fun k hk hbad hleast => source_refused hts herror hnesting hk hbad hleast,
      source_broken hts herror hnesting, fun statements hparse => ?_, fun error hparse => ?_⟩
    · rcases houtcome with ⟨error, houtcome, -⟩ | houtcome <;> rw [hparse] at houtcome <;>
        cases houtcome
    · rcases houtcome with ⟨error', houtcome, hmem⟩ | houtcome
      · rw [hparse] at houtcome
        cases houtcome
        exact (hlex _ hmem).kind_ne_endOfInput
      · rw [hparse] at houtcome
        cases houtcome
  · subst hts
    exact (Parse.uniform_program _ _ (Reader.alike_ofTokens source hnone)).outcome

/-- A text with two errors, of which the first one is reported while the second one is ahead; and a
text without one. -/
theorem first_error_wins_closing :
    (∃ error r, Parse.program (Reader.ofSource ")@") = (.error (.parse error), r) ∧
      error.token = ⟨.closeParen, .text ")", ⟨1, 1⟩, 1⟩ ∧
        r.error? = some (.unexpectedCharacter '@' ⟨1, 2⟩)) ∧
    (parseSource "x").1 = parseTokens [⟨.name, .text "x", ⟨1, 1⟩, 1⟩] := by
  have htokens : (tokenize ")@").tokens = [⟨.closeParen, .text ")", ⟨1, 1⟩, 1⟩] := by
    decide +kernel
  have herror : (tokenize ")@").error? = some (.unexpectedCharacter '@' ⟨1, 2⟩) := by
    decide +kernel
  have hbad : ¬ Viable [⟨.closeParen, .text ")", ⟨1, 1⟩, 1⟩] := by
    rw [viable_iff_run]
    rintro ⟨s, hs⟩
    cases hs
  obtain ⟨hrefused, -⟩ := (first_error_wins ")@" _ htokens).1 _ herror (by decide)
  obtain ⟨error, r, hprogram, htoken, -, hahead, -⟩ := hrefused 0 (by decide) hbad (by simp)
  exact ⟨⟨error, r, hprogram, htoken, hahead⟩,
    (first_error_wins "x" _ (by decide +kernel)).2 (by decide +kernel)⟩

end Reckoner
