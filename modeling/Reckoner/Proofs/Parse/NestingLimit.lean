import Reckoner.Proofs.Parse.Descent
import Reckoner.Proofs.Parse.Wording

/-!
# The limit on nesting

The grammar has no limit: it accepts tokens, refuses the first one that no program has there, or
gets to the end of the input or of the text. As long as parentheses do not nest too deeply among the
tokens that some program starts with, parsing does the same, however many statements and operators
there are. A statement that nests too deeply is refused at its first token, as soon as it does and
whatever comes next.
-/

namespace Reckoner

open Grammar

/-! ## What the grammar makes of tokens -/

namespace Grammar

theorem Viable.of_append {xs ys : List Token} (h : Viable (xs ++ ys)) : Viable xs := by
  obtain ⟨more, hmore⟩ := h
  exact ⟨ys ++ more, by rwa [← List.append_assoc]⟩

theorem Grammatical.viable {ts : List Token} (h : Grammatical ts) : Viable ts :=
  ⟨[], by rwa [List.append_nil]⟩

theorem Viable.next {xs ys : List Token} {t : Token} (h : Viable (xs ++ t :: ys)) :
    Viable (xs ++ [t]) := by
  rw [List.append_cons] at h
  exact h.of_append

theorem not_viable_unique {xs ys us vs : List Token} {x u : Token}
    (h : xs ++ x :: ys = us ++ u :: vs) (hxs : Viable xs) (hus : Viable us)
    (hx : ¬ Viable (xs ++ [x])) (hu : ¬ Viable (us ++ [u])) : xs = us ∧ x = u := by
  rcases append_cons_eq_append_cons h with ⟨zs, rfl, -⟩ | ⟨rfl, rfl, -⟩ | ⟨zs, rfl, -⟩
  · exact absurd hxs.next hu
  · exact ⟨rfl, rfl⟩
  · exact absurd hus.next hx

end Grammar

/-- What the grammar makes of the tokens of a supply and of the error after them. -/
inductive Verdict (supply : Supply) : Except ParseFailure (List Tree) → Prop
  | accepted {statements : List Tree} :
      supply.error? = none → (∀ t ∈ statements, t.IsStatement) →
        Tree.Layout statements supply.tokens → Verdict supply (.ok statements)
  -- One of the tokens is the first that no program has there.
  | refused {xs ys : List Token} {t : Token} {cause : Cause} :
      supply.tokens = xs ++ t :: ys → Viable xs → ¬ Viable (xs ++ [t]) → cause.Applies xs t →
        Verdict supply (.error (.parse ⟨cause.problem t, t⟩))
  -- The input ends where no program ends.
  | unfinished {ending : Token} {cause : Cause} :
      supply.error? = none → Viable supply.tokens → ¬ Grammatical supply.tokens →
        ending = Reader.sentinelAfter supply.tokens.getLast? →
          cause.Applies supply.tokens ending →
            Verdict supply (.error (.parse ⟨cause.problem ending, ending⟩))
  | broken {e : ScanError} :
      supply.error? = some e → Viable supply.tokens → Verdict supply (.error (.scan e))

namespace Verdict

variable {supply : Supply} {outcome other : Except ParseFailure (List Tree)}

theorem grammatical_of_layout {statements : List Tree} {ts : List Token}
    (h : Tree.Layout statements ts) (hall : ∀ t ∈ statements, t.IsStatement) : Grammatical ts :=
  grammatical_iff_run.mpr (Tree.run_of_layout h hall)

theorem not_viable_of_refused {ts xs ys : List Token} {t : Token} (h : ts = xs ++ t :: ys)
    (hnot : ¬ Viable (xs ++ [t])) : ¬ Viable ts := by
  intro hviable
  exact hnot (Viable.next (h ▸ hviable))

/-- The grammar makes one thing of the tokens. -/
theorem unique (h : Verdict supply outcome) (h' : Verdict supply other) : other = outcome := by
  cases h with
  | accepted hnone hall hlayout =>
      have hgrammatical := grammatical_of_layout hlayout hall
      cases h' with
      | accepted _ hall' hlayout' => rw [Tree.layout_unique hlayout hlayout' hall hall']
      | refused hts _ hnot _ => exact absurd hgrammatical.viable (not_viable_of_refused hts hnot)
      | unfinished _ _ hnot _ _ => exact absurd hgrammatical hnot
      | broken hsome _ => simp [hnone] at hsome
  | refused hts hviable hnot happlies =>
      have hwhole := not_viable_of_refused hts hnot
      cases h' with
      | accepted _ hall' hlayout' =>
          exact absurd (grammatical_of_layout hlayout' hall').viable hwhole
      | refused hts' hviable' hnot' happlies' =>
          obtain ⟨rfl, rfl⟩ := not_viable_unique (hts.symm.trans hts') hviable hviable' hnot hnot'
          rw [happlies.unique happlies']
      | unfinished _ hviable' _ _ _ => exact absurd hviable' hwhole
      | broken _ hviable' => exact absurd hviable' hwhole
  | unfinished hnone hviable hnot hending happlies =>
      cases h' with
      | accepted _ hall' hlayout' => exact absurd (grammatical_of_layout hlayout' hall') hnot
      | refused hts' _ hnot' _ => exact absurd hviable (not_viable_of_refused hts' hnot')
      | unfinished _ _ _ hending' happlies' =>
          subst hending hending'
          rw [happlies.unique happlies']
      | broken hsome _ => simp [hnone] at hsome
  | broken hsome hviable =>
      cases h' with
      | accepted hnone _ _ => simp [hnone] at hsome
      | refused hts' _ hnot' _ => exact absurd hviable (not_viable_of_refused hts' hnot')
      | unfinished hnone _ _ _ _ => simp [hnone] at hsome
      | broken hsome' _ =>
          rw [hsome] at hsome'
          rw [Option.some.inj hsome']

end Verdict

namespace Reader

variable (supply : Supply)

@[simp] theorem rest_ofSupply : (ofSupply supply).rest = supply.tokens := rfl

@[simp] theorem kind_ending_ofSupply : (ofSupply supply).ending.kind = .endOfInput :=
  kind_ending rfl

theorem ending_ofSupply : (ofSupply supply).ending = sentinelAfter supply.tokens.getLast? := by
  simp [ending, ofSupply]

end Reader

/-- Parsing that ends as the automaton says ends as the grammar says. -/
theorem verdict_of_ends {supply : Supply} (hlex : ∀ t ∈ supply.tokens, t.Lexical)
    {outcome : Except ParseFailure (List Tree)} {r : Reader}
    (h : Parse.Ends (Reader.ofSupply supply) outcome r) : Verdict supply outcome := by
  cases h with
  | accepted hreads =>
      obtain ⟨hnil, rfl⟩ := hreads.takes_all fun t ht => (hlex t ht).kind_ne_endOfInput
      have herror := Reader.error_of_settled hreads.settled hnil
      rw [hreads.takes.error_eq] at herror
      exact .accepted herror hreads.isStatement (hreads.layout hlex)
  | @refused xs ys t m _ hts htakes hrun hstep =>
      have ht : t ∈ supply.tokens := by
        rw [Reader.rest_ofSupply] at hts
        simp [hts]
      obtain ⟨cause, happlies, hcause⟩ := State.exists_applies_of_refuses hrun
        ⟨hstep, fun hk => absurd hk (hlex t ht).kind_ne_endOfInput⟩
      rw [hcause]
      exact .refused hts (viable_iff_run.mpr ⟨m, hrun⟩) (Parse.not_viable_of_step hrun hstep [])
        happlies
  | @unfinished m _ herror htakes hrun hopen =>
      have hrefuses : m.Refuses (Reader.ofSupply supply).ending :=
        ⟨State.step_endOfInput (Reader.kind_ending_ofSupply supply) m, fun _ => hopen⟩
      obtain ⟨cause, happlies, hcause⟩ := State.exists_applies_of_refuses hrun hrefuses
      rw [hcause]
      refine .unfinished herror (viable_iff_run.mpr ⟨m, hrun⟩) ?_ (Reader.ending_ofSupply supply)
        happlies
      intro hgrammatical
      obtain ⟨s, hs, hcomplete⟩ := grammatical_iff_run.mp hgrammatical
      rw [Reader.rest_ofSupply, hs] at hrun
      cases hrun
      simp [hopen] at hcomplete
  | @broken e m _ herror hrun => exact .broken herror (viable_iff_run.mpr ⟨m, hrun⟩)
  | @unusable t f _ ht hk hvalue => exact absurd hvalue ((hlex t ht).usable hk f)

/-! ## Within the limit -/

theorem Grammar.State.complaint_problem_ne (s : State) (t : Token) :
    (s.complaint t).problem ≠ .tooDeep := by
  have hunexpected : (ParseError.unexpected t).problem ≠ .tooDeep := by
    unfold ParseError.unexpected
    split <;> simp
  unfold State.complaint
  split
  · split_ifs <;> simp [hunexpected]
  · split_ifs <;> simp [hunexpected]
  · exact hunexpected

namespace Parse

theorem Ends.ne_tooDeep {r r' : Reader} {f : ParseFailure} (h : Ends r (.error f) r') :
    f ≠ .tooDeep ∧ ∀ t, f ≠ .parse ⟨.tooDeep, t⟩ := by
  have hcomplaint {s : State} {t u : Token} : s.complaint t ≠ ⟨.tooDeep, u⟩ := by
    intro heq
    exact s.complaint_problem_ne t (by rw [heq])
  cases h with
  | refused => exact ⟨by simp, fun t ht => hcomplaint (ParseFailure.parse.inj ht)⟩
  | unfinished => exact ⟨by simp, fun t ht => hcomplaint (ParseFailure.parse.inj ht)⟩
  | broken => simp
  | unusable _ _ hvalue =>
      rcases numberOf_cases hvalue with ⟨text, rfl⟩ | rfl | rfl <;> simp

/-- Only the tokens that some program starts with have to nest within the limit. -/
theorem program_ends_of_viable {r : Reader} (hend : r.ending.kind = .endOfInput)
    (h : ∀ xs, xs <+: r.rest → Viable xs → nesting xs ≤ nestingLimit) :
    Ends r (program r).1 (program r).2 := by
  obtain ⟨outcome, r', hprogram⟩ : ∃ outcome r', program r = (outcome, r') := ⟨_, _, rfl⟩
  rw [hprogram]
  cases outcome with
  | ok statements =>
      obtain ⟨xs, hreads⟩ := (ensures_program hend).of_ok hprogram
      exact .accepted hreads
  | error f =>
      refine ((ensures_program hend).of_error hprogram).ends_of_shallow hend ?_
      intro xs m hprefix hrun
      have hle := h xs hprefix (viable_iff_run.mpr ⟨m, hrun⟩)
      rw [length_opened_run hrun]
      exact (foldl_openAfter_le_peak 0 xs).trans hle

/-! ## Beyond the limit -/

section Beyond

variable {before statement later xs ys rest : List Token}

theorem EndsStatement.count_eq (h : EndsStatement xs) : xs.foldl openAfter 0 = 0 := by
  rcases List.eq_nil_or_concat' xs with rfl | ⟨us, t, rfl⟩
  · rfl
  · have hk : t.kind = .terminator := h t List.getLast?_concat
    simp [openAfter, hk]

theorem EndsStatement.exists_mem (h : EndsStatement (xs ++ ys)) (hne : ys ≠ []) :
    ∃ t ∈ ys, t.kind = .terminator := by
  refine ⟨ys.getLast hne, List.getLast_mem hne, h _ ?_⟩
  rw [List.getLast?_append, List.getLast?_eq_getLast_of_ne_nil hne, Option.some_or]

/-- Tokens that nest less deeply stop before the end of the deep ones. -/
theorem exists_next_of_nesting_lt (h : statement ++ later = xs ++ rest)
    (hlt : nesting xs < nesting statement) :
    ∃ t ts, statement = xs ++ t :: ts ∧ rest = t :: (ts ++ later) := by
  rcases List.append_eq_append_iff.mp h with ⟨more, hxs, -⟩ | ⟨more, hstatement, hrest⟩
  · exact absurd (nesting_mono ⟨more, hxs.symm⟩) (Nat.not_le.mpr hlt)
  · cases more with
    | nil =>
        rw [hstatement, List.append_nil] at hlt
        exact absurd hlt (Nat.lt_irrefl _)
    | cons t ts => exact ⟨t, ts, hstatement, hrest⟩

/-- Tokens can be split in one way only into tokens that end a statement within the limit and the
beginning of a statement that passes it. -/
theorem eq_of_deep (h : before ++ statement ++ later = xs ++ (ys ++ rest))
    (hbefore : EndsStatement before) (hle : nesting before ≤ nestingLimit)
    (hstatement : ∀ t ∈ statement, t.kind ≠ .terminator)
    (hxs : EndsStatement xs) (hlt : nesting xs < nesting (before ++ statement))
    (hys : ∀ t ∈ ys, t.kind ≠ .terminator) (hdeep : nestingLimit < ys.foldl openAfter 0) :
    xs = before := by
  rw [List.append_assoc] at h
  rcases List.append_eq_append_iff.mp h with ⟨more, rfl, -⟩ | ⟨more, rfl, hmore⟩
  -- The statement would have ended before it got deep.
  · by_contra hne
    have hsome : more ≠ [] := by
      rintro rfl
      exact hne (List.append_nil before)
    obtain ⟨t, ht, hk⟩ := hxs.exists_mem hsome
    rw [← List.append_assoc] at h
    obtain ⟨u, us, hsplit, -⟩ := exists_next_of_nesting_lt h hlt
    rw [List.append_assoc] at hsplit
    have hsame := List.append_cancel_left hsplit
    exact hstatement t (by simp [hsame, ht]) hk
  -- A statement of the tokens before it would be deep.
  · by_contra hne
    have hsome : more ≠ [] := by
      rintro rfl
      exact hne (List.append_nil xs).symm
    obtain ⟨t, ht, hk⟩ := hbefore.exists_mem hsome
    rcases List.append_eq_append_iff.mp hmore with ⟨us, rfl, -⟩ | ⟨us, rfl, -⟩
    · have hcount : (xs ++ ys).foldl openAfter 0 = ys.foldl openAfter 0 := by
        rw [List.foldl_append, hxs.count_eq]
      have hpeak := foldl_openAfter_le_peak 0 (xs ++ ys)
      have hmono : nesting (xs ++ ys) ≤ nesting (xs ++ (ys ++ us)) :=
        nesting_mono ⟨us, by rw [List.append_assoc]⟩
      rw [nesting] at hmono
      omega
    · exact hys t (List.mem_append_left us ht) hk

/-- Tokens that are accepted nest within the limit, and their numbers can be used. -/
theorem within_of_accepted (h : ∃ statements, parseTokens xs = .ok statements)
    (hend : ∀ t ∈ xs, t.kind ≠ .endOfInput) : nesting xs ≤ nestingLimit ∧ Usable xs := by
  obtain ⟨statements, hparse⟩ := h
  have hprogram : program (Reader.ofTokens xs) =
      (.ok statements, (program (Reader.ofTokens xs)).2) :=
    Prod.ext hparse rfl
  obtain ⟨us, hreads⟩ := (ensures_program (Reader.kind_ending_ofTokens xs)).of_ok hprogram
  obtain ⟨vs, hclears⟩ := (ensures_program_clears (Reader.kind_ending_ofTokens xs)).of_ok hprogram
  have hall : xs = vs := by
    have hrest := hclears.takes.rest_eq
    rwa [(hreads.takes_all hend).1, List.append_nil] at hrest
  exact hall ▸ ⟨hclears.nesting_le, hclears.usable⟩

/-- Where the next token goes on as some program does, it is not refused. -/
theorem not_refused {r r' : Reader} {t : Token} {ts : List Token} {e : ParseError}
    (hend : r.ending.kind = .endOfInput) (hprogram : program r = (.error (.parse e), r'))
    (htakes : r.Takes xs r') (hle : nesting xs ≤ nestingLimit) (hrest : r'.rest = t :: rest)
    (hviable : Viable (xs ++ t :: ts)) : False := by
  have hsame {us : List Token} (htakes' : r.Takes us r') : us = xs :=
    List.append_cancel_right (htakes'.rest_eq.symm.trans htakes.rest_eq)
  cases (ensures_program hend).of_error hprogram with
  | refused htakes' hrun _ hrefuses =>
      have hnext : r'.next = t := Reader.next_of_cons hrest
      rw [hnext] at hrefuses
      exact not_viable_of_step (hsame htakes' ▸ hrun) hrefuses.1 ts hviable
  | buried htakes' hrun _ htakes'' hrun' hdeep =>
      have hway := State.run_trans hrun hrun'
      rw [hsame (htakes'.trans htakes'')] at hway
      rw [length_opened_run hway] at hdeep
      exact absurd hdeep (Nat.not_lt.mpr ((foldl_openAfter_le_peak 0 xs).trans hle))
  | unusable _ _ hvalue => simpa using numberOf_cases hvalue

/-- A statement that passes the limit after others that were accepted is refused for it, at its
first token and whatever comes next. -/
theorem program_of_deep {r : Reader} {start : Token} {more : List Token}
    (hend : r.ending.kind = .endOfInput) (hrest : r.rest = before ++ (start :: more) ++ later)
    (haccepted : ∃ statements, parseTokens before = .ok statements)
    (hbefore : EndsStatement before) (hstatement : ∀ t ∈ start :: more, t.kind ≠ .terminator)
    (husable : Usable (start :: more)) (hviable : Viable (before ++ start :: more))
    (hdeep : nestingLimit + 1 < nesting (start :: more)) :
    (program r).1 = .error (.parse ⟨.tooDeep, start⟩) := by
  obtain ⟨m, hrun⟩ := viable_iff_run.mp hviable
  have hkinds := State.not_endOfInput_of_run hrun
  obtain ⟨hle, husable'⟩ := within_of_accepted haccepted fun t ht =>
    hkinds t (List.mem_append_left _ ht)
  have hwhole : nestingLimit + 1 < nesting (before ++ start :: more) := by
    rw [nesting, peak_append, hbefore.count_eq]
    exact lt_max_of_lt_right hdeep
  -- What was taken within the limit ends before the statement gets deep.
  have hnext {xs : List Token} {r' : Reader} (htakes : r.Takes xs r')
      (hle : nesting xs ≤ nestingLimit) :
      ∃ t ts, before ++ start :: more = xs ++ t :: ts ∧ r'.rest = t :: (ts ++ later) :=
    exists_next_of_nesting_lt (hrest.symm.trans htakes.rest_eq) (by omega)
  obtain ⟨outcome, r', hprogram⟩ : ∃ outcome r', program r = (outcome, r') := ⟨_, _, rfl⟩
  rw [hprogram]
  cases outcome with
  | ok statements =>
      exfalso
      obtain ⟨xs, hclears⟩ := (ensures_program_clears hend).of_ok hprogram
      obtain ⟨us, hreads⟩ := (ensures_program hend).of_ok hprogram
      obtain ⟨t, ts, hsplit, hrest'⟩ := hnext hclears.takes hclears.nesting_le
      have hlast := hreads.atEnd
      rw [Reader.next_of_cons hrest'] at hlast
      exact hkinds t (by simp [hsplit]) hlast
  | error f =>
      cases (ensures_program_clears hend).of_error hprogram with
      | refused htakes hle =>
          obtain ⟨t, ts, hsplit, hrest'⟩ := hnext htakes hle
          exact (not_refused hend hprogram htakes hle hrest' (hsplit ▸ hviable)).elim
      | @broken xs middle _ e htakes hle _ hlen =>
          have hmono : nesting (before ++ start :: more) ≤ nesting r.rest :=
            nesting_mono ⟨later, hrest.symm⟩
          have hlast := nesting_append_le xs middle.rest
          rw [← htakes.rest_eq] at hlast
          omega
      | @buried xs ys reached _ htakes hle' hends htakes' hys hcount =>
          have hsplit := hrest.symm.trans htakes.rest_eq
          have hsplit' := hsplit
          rw [htakes'.rest_eq] at hsplit'
          have hsame := eq_of_deep hsplit' hbefore hle hstatement hends (by omega) hys hcount
          rw [hsame, List.append_assoc] at hsplit
          have hstart := List.append_cancel_left hsplit
          rw [Reader.next_of_cons hstart.symm]
      | @unusable xs t _ _ htakes hle hmem hk hvalue =>
          exfalso
          obtain ⟨u, us, hsplit, -⟩ := hnext htakes hle
          have hmem' : t ∈ before ++ start :: more := hsplit ▸ List.mem_append_left _ hmem
          obtain ⟨value, hgood⟩ := usable_append husable' husable t hmem' hk
          rw [hgood] at hvalue
          cases hvalue

end Beyond

end Parse

/-- Only the nesting of parentheses is limited. If no more than 100 of them are open at once among
the tokens that some program starts with, parsing never fails for depth and ends as the grammar
says. If 250 are open at once in a statement after others that were accepted, parsing fails for
depth at the first token of that statement, whatever comes next. -/
theorem only_nesting_limited (supply : Supply) :
    ((∀ xs, xs <+: supply.tokens → Viable xs → nesting xs ≤ 100) →
      (∀ f, (Parse.program (Reader.ofSupply supply)).1 = .error f →
        f ≠ .tooDeep ∧ ∀ t, f ≠ .parse ⟨.tooDeep, t⟩) ∧
      Parse.Ends (Reader.ofSupply supply) (Parse.program (Reader.ofSupply supply)).1
        (Parse.program (Reader.ofSupply supply)).2 ∧
      ((∀ t ∈ supply.tokens, t.Lexical) → ∀ outcome,
        Verdict supply outcome ↔ (Parse.program (Reader.ofSupply supply)).1 = outcome)) ∧
    ∀ (before later : List Token) (start : Token) (more : List Token),
      supply.tokens = before ++ (start :: more) ++ later →
      (∃ statements, parseTokens before = .ok statements) → Parse.EndsStatement before →
      (∀ t ∈ start :: more, t.kind ≠ .terminator) → Parse.Usable (start :: more) →
      Viable (before ++ start :: more) → 250 ≤ nesting (start :: more) →
        (Parse.program (Reader.ofSupply supply)).1 = .error (.parse ⟨.tooDeep, start⟩) := by
  have hend := Reader.kind_ending_ofSupply supply
  constructor
  · intro hshallow
    have hends := Parse.program_ends_of_viable hend fun xs hprefix hviable =>
      (hshallow xs hprefix hviable).trans (by decide : 100 ≤ Parse.nestingLimit)
    refine ⟨fun f hf => (hf ▸ hends).ne_tooDeep, hends, fun hlex outcome => ?_⟩
    have hverdict := verdict_of_ends hlex hends
    constructor
    · exact fun h => h.unique hverdict
    · rintro rfl
      exact hverdict
  · intro before later start more htokens haccepted hbefore hstatement husable hviable hdeep
    have hlimit : Parse.nestingLimit + 1 < nesting (start :: more) :=
      (by decide : Parse.nestingLimit + 1 < 250).trans_le hdeep
    exact Parse.program_of_deep hend htokens haccepted hbefore hstatement husable hviable hlimit

/-- A name on its own, and after it a statement with 250 parentheses open, which is refused at its
keyword although a token follows that no program has there. -/
theorem only_nesting_limited_print :
    let x : Token := ⟨.name, .text "x", ⟨1, 1⟩, 1⟩
    let terminator : Token := ⟨.terminator, .text ";", ⟨1, 2⟩, 1⟩
    let keyword : Token := ⟨.print, .text "print", ⟨1, 4⟩, 5⟩
    let deep := List.replicate 250 (⟨.openParen, .text "(", ⟨1, 10⟩, 1⟩ : Token)
    let supply := Supply.listed ([x, terminator] ++ (keyword :: deep) ++ [keyword])
    Verdict (.listed [x]) (.ok [.bare ⟨1, 1⟩ (.name ⟨1, 1⟩ "x")]) ∧
      (Parse.program (Reader.ofSupply supply)).1 = .error (.parse ⟨.tooDeep, keyword⟩) := by
  intro x terminator keyword deep supply
  constructor
  · have hshallow (xs : List Token) (h : xs <+: [x]) : nesting xs ≤ 100 :=
      (nesting_mono h).trans (by decide)
    have hlex : ∀ t ∈ [x], t.Lexical := by simp [x, Token.Lexical]
    have hpart := (only_nesting_limited (.listed [x])).1 fun xs h _ => hshallow xs h
    exact (hpart.2.2 hlex _).mpr rfl
  · have hrun : (State.run .fresh ([x, terminator] ++ keyword :: deep)).isSome = true := by
      decide +kernel
    have hviable : Viable ([x, terminator] ++ keyword :: deep) :=
      viable_iff_run.mpr (Option.isSome_iff_exists.mp hrun)
    have hkinds : (keyword :: deep).all (fun t => t.kind ≠ .terminator ∧ t.kind ≠ .number) := by
      decide +kernel
    have hkind (t : Token) (ht : t ∈ keyword :: deep) :
        t.kind ≠ .terminator ∧ t.kind ≠ .number := by
      simpa using List.all_eq_true.mp hkinds t ht
    refine (only_nesting_limited supply).2 [x, terminator] [keyword] keyword deep rfl
      ⟨_, rfl⟩ ?_ (fun t ht => (hkind t ht).1) (fun t ht hk => absurd hk (hkind t ht).2) hviable ?_
    · intro t ht
      cases ht
      rfl
    · decide +kernel

end Reckoner
