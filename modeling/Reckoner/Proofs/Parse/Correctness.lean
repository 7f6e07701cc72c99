import Reckoner.Proofs.Grammar.Acceptance
import Reckoner.Proofs.Parse.Programs
import Reckoner.Proofs.Tree.Nesting

/-!
# The parser and the grammar

Within the limit on nesting the parser accepts exactly the programs of the grammar. What it builds
are statements that respect the tiers and are spelled by the tokens, and there is only one such
list of statements. When it refuses the tokens, it has taken the longest beginning of them that
some program starts with.
-/

namespace Reckoner

open Grammar

namespace Reader

@[simp] theorem rest_ofTokens (ts : List Token) : (ofTokens ts).rest = ts := rfl

@[simp] theorem error?_ofTokens (ts : List Token) : (ofTokens ts).error? = none := rfl

theorem ending_ofTokens (ts : List Token) :
    (ofTokens ts).ending = sentinelAfter ts.getLast? := by
  simp [ending, ofTokens, ofSupply]

@[simp] theorem kind_ending_ofTokens (ts : List Token) :
    (ofTokens ts).ending.kind = .endOfInput :=
  kind_ending rfl

theorem taken_of_takes_ofTokens {ts xs : List Token} {r : Reader}
    (h : (ofTokens ts).Takes xs r) : r.taken = xs.length := by
  rw [h.taken_eq]
  exact Nat.zero_add _

end Reader

namespace Parse

/-- How parsing a program ends if parentheses nest within the limit. -/
inductive Ends (r : Reader) : Except ParseFailure (List Tree) → Reader → Prop
  | accepted {xs : List Token} {statements : List Tree} {r' : Reader} :
      ReadsProgram r xs statements r' → Ends r (.ok statements) r'
  -- No program goes on with one of the tokens.
  | refused {xs ys : List Token} {t : Token} {m : State} {r' : Reader} :
      r.rest = xs ++ t :: ys → r.Takes xs r' → State.run .fresh xs = some m → m.step t = none →
        Ends r (.error (.parse (m.complaint t))) r'
  -- The input ends where no program ends.
  | unfinished {m : State} {r' : Reader} :
      r.error? = none → r.Takes r.rest r' → State.run .fresh r.rest = some m →
        m.complete = false → Ends r (.error (.parse (m.complaint r.ending))) r'
  -- The text has an error after the tokens.
  | broken {e : ScanError} {m : State} {r' : Reader} :
      r.error? = some e → State.run .fresh r.rest = some m → Ends r (.error (.scan e)) r'
  -- A number has a value that cannot be used.
  | unusable {t : Token} {f : ParseFailure} {r' : Reader} :
      t ∈ r.rest → t.kind = .number → numberOf t.value = .error f → Ends r (.error f) r'

/-- The tokens have to nest within the limit only as far as the automaton gets through. -/
theorem Fails.ends_of_shallow {r r' : Reader} {f : ParseFailure}
    (h : Fails nestingLimit .fresh r f r') (hend : r.ending.kind = .endOfInput)
    (hshallow : ∀ xs m, xs <+: r.rest → State.run .fresh xs = some m →
      m.opened.length ≤ nestingLimit) : Ends r (.error f) r' := by
  have hwithin {xs : List Token} {m : State} {middle : Reader} (htakes : r.Takes xs middle)
      (hrun : State.run .fresh xs = some m) : ¬ nestingLimit < m.opened.length :=
    Nat.not_lt.mpr (hshallow xs m ⟨middle.rest, htakes.rest_eq.symm⟩ hrun)
  cases h with
  | @refused xs m r' htakes hrun hsettled hrefuses =>
      have hts := htakes.rest_eq
      cases hrest : r'.rest with
      | nil =>
          have hnext : r'.next = r.ending := by simp [Reader.next, hrest, htakes.ending_eq]
          have herror := Reader.error_of_settled hsettled hrest
          rw [htakes.error_eq] at herror
          rw [hrest, List.append_nil] at hts
          subst hts
          rw [hnext] at hrefuses ⊢
          exact .unfinished herror htakes hrun (hrefuses.2 hend)
      | cons t ys =>
          have hnext := Reader.next_of_cons hrest
          rw [hrest] at hts
          rw [hnext] at hrefuses ⊢
          exact .refused hts htakes hrun hrefuses.1
  | broken htakes hrun hbreaks =>
      exact .broken (htakes.error_eq.symm.trans hbreaks.error_eq) hrun
  | deep htakes hrun hdeep => exact absurd hdeep (hwithin htakes hrun)
  | buried htakes hrun _ htakes' hrun' hdeep =>
      exact absurd hdeep (hwithin (htakes.trans htakes') (State.run_trans hrun hrun'))
  | unusable hmem hk hvalue => exact .unusable hmem hk hvalue

theorem Fails.ends {r r' : Reader} {f : ParseFailure} (h : Fails nestingLimit .fresh r f r')
    (hend : r.ending.kind = .endOfInput) (hnesting : nesting r.rest ≤ nestingLimit) :
    Ends r (.error f) r' := by
  refine h.ends_of_shallow hend fun xs m hprefix hrun => ?_
  obtain ⟨ys, hys⟩ := hprefix
  rw [← hys] at hnesting
  exact (length_opened_le_nesting hrun).trans hnesting

theorem program_ends {r r' : Reader} {outcome : Except ParseFailure (List Tree)}
    (hend : r.ending.kind = .endOfInput) (hnesting : nesting r.rest ≤ nestingLimit)
    (h : program r = (outcome, r')) : Ends r outcome r' := by
  cases outcome with
  | ok statements =>
      obtain ⟨xs, hreads⟩ := (ensures_program hend).of_ok h
      exact .accepted hreads
  | error f => exact ((ensures_program hend).of_error h).ends hend hnesting

theorem ReadsProgram.takes_all {r r' : Reader} {xs : List Token} {statements : List Tree}
    (h : ReadsProgram r xs statements r') (hend : ∀ t ∈ r.rest, t.kind ≠ .endOfInput) :
    r'.rest = [] ∧ xs = r.rest := by
  have hnil : r'.rest = [] := by
    cases hrest : r'.rest with
    | nil => rfl
    | cons t ts =>
        have hnext := Reader.next_of_cons hrest
        refine absurd (hnext ▸ h.atEnd) (hend t ?_)
        simp [h.takes.rest_eq, hrest]
  exact ⟨hnil, by rw [h.takes.rest_eq, hnil, List.append_nil]⟩

theorem not_viable_of_step {xs : List Token} {m : State} {t : Token}
    (hrun : State.run .fresh xs = some m) (h : m.step t = none) (ys : List Token) :
    ¬ Viable (xs ++ t :: ys) := by
  rw [viable_iff_run]
  rintro ⟨s, hs⟩
  obtain ⟨m', hm', hrest⟩ := State.exists_run_of_append hs
  rw [hrun] at hm'
  cases hm'
  rw [State.run_cons, h] at hrest
  cases hrest

end Parse

/-! ## Acceptance -/

theorem Token.Lexical.usable {t : Token} (h : t.Lexical) (hk : t.kind = .number)
    (f : ParseFailure) : Parse.numberOf t.value ≠ .error f := by
  simp only [Lexical, hk] at h
  obtain ⟨x, hx⟩ := h
  rw [hx]
  simp [Parse.numberOf]

theorem Token.Lexical.kind_ne_endOfInput {t : Token} (h : t.Lexical) : t.kind ≠ .endOfInput := by
  intro hk
  simp [Lexical, hk] at h

section Acceptance

variable {ts : List Token} {statements : List Tree} {r : Reader}

theorem readsProgram_of_program (hlex : ∀ t ∈ ts, t.Lexical)
    (h : Parse.program (Reader.ofTokens ts) = (.ok statements, r)) :
    Parse.ReadsProgram (Reader.ofTokens ts) ts statements r := by
  obtain ⟨xs, hreads⟩ := (Parse.ensures_program (Reader.kind_ending_ofTokens ts)).of_ok h
  have hall := (hreads.takes_all fun t ht => (hlex t ht).kind_ne_endOfInput).2
  rw [Reader.rest_ofTokens] at hall
  exact hall ▸ hreads

theorem exists_program_of_run (hlex : ∀ t ∈ ts, t.Lexical)
    (hnesting : nesting ts ≤ Parse.nestingLimit) {s : State}
    (hrun : State.run .fresh ts = some s) (hcomplete : s.complete = true) :
    ∃ statements r, Parse.program (Reader.ofTokens ts) = (.ok statements, r) := by
  match hprogram : Parse.program (Reader.ofTokens ts) with
  | (.ok statements, r) => exact ⟨statements, r, rfl⟩
  | (.error f, r) =>
      exfalso
      cases Parse.program_ends (Reader.kind_ending_ofTokens ts) hnesting hprogram with
      | refused hts _ hxs hstep =>
          rw [Reader.rest_ofTokens] at hts
          exact Parse.not_viable_of_step hxs hstep _ (viable_iff_run.mpr ⟨s, hts ▸ hrun⟩)
      | unfinished _ _ hrun' hopen =>
          rw [Reader.rest_ofTokens, hrun] at hrun'
          cases hrun'
          simp [hopen] at hcomplete
      | broken herror _ => cases herror
      | @unusable t _ _ ht hk hvalue => exact (hlex t ht).usable hk f hvalue

/-- The parser accepts exactly the programs of the grammar and builds the only statements that
their tokens spell. -/
theorem parseTokens_exact :
    (∀ ts : List Token, (∀ t ∈ ts, t.Lexical) → nesting ts ≤ Parse.nestingLimit →
      ((∃ statements, parseTokens ts = .ok statements) ↔ Grammatical ts) ∧
      ∀ statements r, Parse.program (Reader.ofTokens ts) = (.ok statements, r) →
        r.taken = ts.length ∧
        (∀ t ∈ statements, t.IsStatement) ∧
        (ts.filter fun t => t.kind ≠ .terminator).map Token.mark =
          statements.flatMap Tree.marks ∧
        Tree.Layout statements ts ∧
        ∀ others : List Tree, (∀ t ∈ others, t.IsStatement) → Tree.Layout others ts →
          others = statements) ∧
    ∀ statements : List Tree,
      (∀ t ∈ statements, t.IsStatement ∧ t.nesting ≤ Parse.nestingLimit) →
        (∃ ts, Tree.Layout statements ts) ∧
        ∀ ts, Tree.Layout statements ts → parseTokens ts = .ok statements := by
  refine ⟨fun ts hlex hnesting => ⟨⟨?_, ?_⟩, ?_⟩, ?_⟩
  · rintro ⟨statements, hparse⟩
    have hprogram : Parse.program (Reader.ofTokens ts) =
        (.ok statements, (Parse.program (Reader.ofTokens ts)).2) :=
      Prod.ext hparse rfl
    exact grammatical_iff_run.mpr (readsProgram_of_program hlex hprogram).run
  · intro hgrammatical
    obtain ⟨s, hrun, hcomplete⟩ := grammatical_iff_run.mp hgrammatical
    obtain ⟨statements, r, hprogram⟩ := exists_program_of_run hlex hnesting hrun hcomplete
    exact ⟨statements, congrArg Prod.fst hprogram⟩
  · intro statements r hprogram
    have hreads := readsProgram_of_program hlex hprogram
    have hlayout := hreads.layout hlex
    exact ⟨Reader.taken_of_takes_ofTokens hreads.takes, hreads.isStatement,
      hlayout.marks_eq hreads.isStatement, hlayout,
      fun others hothers hlayout' => Tree.layout_unique hlayout' hlayout hothers hreads.isStatement⟩
  · intro statements hall
    have hst : ∀ t ∈ statements, t.IsStatement := fun t ht => (hall t ht).1
    refine ⟨Tree.exists_layout hst, fun ts hlayout => ?_⟩
    have hlex := Tree.lexical_of_layout hlayout hst
    have hnesting := Tree.nesting_of_layout hlayout hall
    obtain ⟨s, hrun, hcomplete⟩ := Tree.run_of_layout hlayout hst
    obtain ⟨statements', r, hprogram⟩ := exists_program_of_run hlex hnesting hrun hcomplete
    have hreads := readsProgram_of_program hlex hprogram
    have hsame := Tree.layout_unique hlayout (hreads.layout hlex) hst hreads.isStatement
    rw [hsame]
    exact congrArg Prod.fst hprogram

end Acceptance

/-- An assignment, for which the theorem gives back its tree. -/
theorem parseTokens_exact_assignment :
    let ts : List Token := [⟨.name, .text "x", ⟨1, 1⟩, 1⟩, ⟨.assign, .text "=", ⟨1, 3⟩, 1⟩,
      ⟨.name, .text "y", ⟨1, 5⟩, 1⟩, ⟨.terminator, .text ";", ⟨1, 6⟩, 1⟩]
    Grammatical ts ∧ parseTokens ts = .ok [.assign ⟨1, 1⟩ "x" (.name ⟨1, 5⟩ "y")] := by
  intro ts
  have hlex : ∀ t ∈ ts, t.Lexical := by simp [ts, Token.Lexical]
  have hspells : (Tree.assign ⟨1, 1⟩ "x" (.name ⟨1, 5⟩ "y")).Spells (ts.take 3) := rfl
  have hlayout : Tree.Layout [.assign ⟨1, 1⟩ "x" (.name ⟨1, 5⟩ "y")] ts :=
    .cons hspells rfl .nil
  have hparse := (parseTokens_exact.2 _ (by
    simp [Tree.IsStatement, Tree.nesting, Tree.Tiered.name])).2 ts hlayout
  exact ⟨((parseTokens_exact.1 ts hlex (by decide)).1).mp ⟨_, hparse⟩, hparse⟩

/-! ## Refusal -/

/-- Tokens are refused at the first one that no program has there: what was taken is how some
program starts, and no program starts with the next token as well. At the end of the input it is
the end-of-input token that is refused, since the tokens are no program. -/
theorem refused_at_first_unviable {ts : List Token}
    (hnesting : nesting ts ≤ Parse.nestingLimit) {e : ParseError} {r : Reader}
    (h : Parse.program (Reader.ofTokens ts) = (.error (.parse e), r)) :
    r.taken ≤ ts.length ∧
      Viable (ts.take r.taken) ∧
      (∀ hlt : r.taken < ts.length,
        e.token = ts[r.taken] ∧ e.diagnostic.pos = ts[r.taken].pos ∧
          ¬ Viable (ts.take (r.taken + 1))) ∧
      (r.taken = ts.length →
        e.token = Reader.sentinelAfter ts.getLast? ∧ ¬ Grammatical ts) := by
  cases Parse.program_ends (Reader.kind_ending_ofTokens ts) hnesting h with
  | @refused xs ys t m _ hts htakes hrun hstep =>
      rw [Reader.rest_ofTokens] at hts
      subst hts
      have htaken := Reader.taken_of_takes_ofTokens htakes
      have hless : r.taken < (xs ++ t :: ys).length := by simp [htaken]
      have hget : (xs ++ t :: ys)[r.taken] = t := by simp [htaken]
      refine ⟨hless.le, ?_, fun _ => ?_, fun hlen => absurd hlen hless.ne⟩
      · rw [htaken, List.take_left]
        exact viable_iff_run.mpr ⟨m, hrun⟩
      · refine ⟨by rw [hget, State.complaint_token], ?_, ?_⟩
        · rw [hget, ParseError.diagnostic, State.complaint_token]
        · rw [List.take_add_one, List.getElem?_eq_getElem hless, hget, htaken, List.take_left]
          exact Parse.not_viable_of_step hrun hstep []
  | @unfinished m _ _ htakes hrun hopen =>
      rw [Reader.rest_ofTokens] at htakes hrun
      have htaken := Reader.taken_of_takes_ofTokens htakes
      refine ⟨htaken.le, ?_, fun hlt => absurd hlt htaken.not_lt, fun _ => ⟨?_, ?_⟩⟩
      · rw [htaken, List.take_length]
        exact viable_iff_run.mpr ⟨m, hrun⟩
      · rw [State.complaint_token, Reader.ending_ofTokens]
      · intro hgrammatical
        obtain ⟨s, hs, hcomplete⟩ := grammatical_iff_run.mp hgrammatical
        rw [hrun] at hs
        cases hs
        simp [hopen] at hcomplete
  | unusable _ _ hvalue => simpa using Parse.numberOf_cases hvalue

/-- A closing parenthesis where an operand has to follow. -/
theorem refused_at_closing :
    let ts : List Token := [⟨.print, .text "print", ⟨1, 1⟩, 5⟩, ⟨.closeParen, .text ")", ⟨1, 7⟩, 1⟩,
      ⟨.name, .text "x", ⟨1, 9⟩, 1⟩]
    ∃ e r, Parse.program (Reader.ofTokens ts) = (.error (.parse e), r) ∧ r.taken = 1 ∧
      e.token = ⟨.closeParen, .text ")", ⟨1, 7⟩, 1⟩ ∧ Viable (ts.take 1) ∧
        ¬ Viable (ts.take 2) := by
  intro ts
  have hprogram : Parse.program (Reader.ofTokens ts) = (.error (.parse
      ⟨.unexpectedClose, ⟨.closeParen, .text ")", ⟨1, 7⟩, 1⟩⟩), _) := rfl
  obtain ⟨-, hviable, hnext, -⟩ := refused_at_first_unviable (by decide) hprogram
  obtain ⟨htoken, -, hunviable⟩ := hnext (by decide)
  exact ⟨_, _, hprogram, rfl, htoken, hviable, hunviable⟩

end Reckoner
