import Reckoner.Proofs.Parse.Expressions

/-!
# Rules for statements and programs

A statement that starts with a name is an assignment if an equals sign follows, which is found out
before anything is taken. An expression that is a statement is read like one after an opening
parenthesis. The automaton only differs in that it remembers a single name, and since the equals
sign is ruled out by then, this does not show.
-/

namespace Reckoner.Parse

open Grammar

/-- Whether a statement was read from the tokens, which lead the automaton to the state. -/
structure ReadsStatement (r : Reader) (xs : List Token) (s : State) (t : Tree) (r' : Reader) :
    Prop where
  takes : r.Takes xs r'
  run : State.run .fresh xs = some s
  ended : s.Ended
  settled : r'.Settled
  stops : r'.next.kind ≠ .terminator → s.step r'.next = none
  isStatement : t.IsStatement
  spells : (∀ x ∈ xs, x.Lexical) → t.Spells xs

/-- Whether the statements of a whole program were read from the tokens. -/
structure ReadsProgram (r : Reader) (xs : List Token) (statements : List Tree) (r' : Reader) :
    Prop where
  takes : r.Takes xs r'
  run : ∃ s, State.run .fresh xs = some s ∧ s.complete = true
  settled : r'.Settled
  atEnd : r'.next.kind = .endOfInput
  isStatement : ∀ t ∈ statements, t.IsStatement
  layout : (∀ x ∈ xs, x.Lexical) → Tree.Layout statements xs

section Rules

variable {r r' : Reader} {xs : List Token}

/-! ## Statements -/

theorem stops_terminator (h : Stops 0 r) (hk : r.next.kind ≠ .terminator) :
    State.step (.operator []) r.next = none :=
  step_of_stops h (fun _ => rfl) fun hterminator => absurd hterminator hk

/-- The expression of a statement, after the keyword or the equals sign in front of it. -/
theorem ensures_body {middle : Reader} {ws : List Token} {after : Token} {make : Tree → Tree}
    (hend : r.ending.kind = .endOfInput) (htakes : r.Takes ws middle)
    (hway : State.run .fresh ws = some (.operand after []))
    (hafter : after.kind = .print ∨ after.kind = .assign)
    (hmake : ∀ body : Tree, body.Tiered → (make body).IsStatement)
    (hspells : (∀ x ∈ ws, x.Lexical) → ∀ (body : Tree) (xs : List Token), body.Spells xs →
      (make body).Spells (ws ++ xs)) :
    Ensures (unlessEnd (.expectedExpression after.value) expression >>= fun body =>
        pure (make body)) middle
      (fun t r' => ∃ xs s, ReadsStatement r xs s t r') (Fails nestingLimit .fresh r) := by
  have hmissing (tok : Token) (htok : tok.kind.isEnd = true) :
      (State.operand after []).complaint tok = ⟨.expectedExpression after.value, tok⟩ := by
    simp [State.complaint, htok, hafter]
  refine Ensures.bind ((ensures_unlessEnd readsOperand_expression (htakes.kind_ending hend)
    hmissing).imp ?_ fun f r' hfails => hfails.after htakes hway)
  rintro body r' ⟨xs, hreads, hstops⟩
  refine ⟨ws ++ xs, .operator [], ?_⟩
  exact
    { takes := htakes.trans hreads.takes
      run := State.run_trans hway hreads.run
      ended := Or.inl rfl
      settled := hstops.1
      stops := stops_terminator hstops
      isStatement := hmake body hreads.tiered
      spells := fun hlex => hspells (fun x hx => hlex x (List.mem_append_left _ hx)) body xs
        (hreads.spells fun x hx => hlex x (List.mem_append_right _ hx)) }

theorem ensures_printing (hend : r.ending.kind = .endOfInput) (hk : r.next.kind = .print) :
    Ensures printing r (fun t r' => ∃ xs s, ReadsStatement r xs s t r')
      (Fails nestingLimit .fresh r) := by
  refine Ensures.bind (ensures_expect hend (by decide) ?_ (fun r' hother => absurd hk hother) ?_)
  · intro middle _ htakes
    refine ensures_body hend htakes (State.run_singleton (by simp [State.step, hk])) (Or.inl hk)
      (fun body hbody => hbody) ?_
    intro _ body xs hxs
    exact Tree.Spells.print_iff.mpr ⟨r.next, xs, rfl, by simp [Token.mark, hk], hxs⟩
  · intro e r' hbreaks hnil
    exact .at_once hbreaks hnil

theorem ensures_assignment (hend : r.ending.kind = .endOfInput) (hk : r.next.kind = .name)
    (hassign : (r.rest[1]?.getD r.ending).kind = .assign) :
    Ensures assignment r (fun t r' => ∃ xs s, ReadsStatement r xs s t r')
      (Fails nestingLimit .fresh r) := by
  refine Ensures.bind (ensures_expect hend (by decide) ?_ (fun r' hother => absurd hk hother) ?_)
  · intro named _ htakes
    have hname : State.run .fresh [r.next] = some .named :=
      State.run_singleton (by simp [State.step, hk])
    have hsign : named.next.kind = .assign := by rwa [htakes.next_of_singleton]
    refine Ensures.bind (ensures_expect (htakes.kind_ending hend) (by decide) ?_
      (fun r' hother => absurd hsign hother) ?_)
    · intro middle _ htakes'
      refine ensures_body hend (htakes.trans htakes')
        (State.run_trans hname (State.run_singleton (by simp [State.step, hsign]))) (Or.inr hsign)
        (fun body hbody => hbody) ?_
      intro hlex body xs hxs
      have htarget := hlex r.next (by simp)
      simp only [Token.Lexical, hk] at htarget
      obtain ⟨id, hid⟩ := htarget
      refine Tree.Spells.assign_iff.mpr ⟨r.next, named.next, xs, rfl, ?_, ?_, hxs⟩
      · simp [Token.mark, hk, hid, Value.display]
      · simp [Token.mark, hsign]
    · intro e r' hbreaks hnil
      exact .of_breaks htakes hname hbreaks hnil
  · intro e r' hbreaks hnil
    exact .at_once hbreaks hnil

/-- Where a statement starts, an operand leads to the same states. A single name is remembered, but
it is followed by the same tokens other than an equals sign. -/
theorem run_fresh {after : Token} {m : State} (hne : xs ≠ [])
    (hrun : State.run (.operand after []) xs = some m) :
    State.run .fresh xs = some m ∨
      (∃ t, xs = [t] ∧ t.kind = .name ∧ m = .operator [] ∧ State.run .fresh xs = some .named) := by
  cases xs with
  | nil => exact absurd rfl hne
  | cons t ts =>
      rcases State.run_fresh_of_run_operand hrun with hfresh | ⟨rfl, hm, hfresh⟩
      · exact Or.inl hfresh
      · refine Or.inr ⟨t, rfl, ?_, hm, hfresh⟩
        obtain ⟨s, hs, hend⟩ := Option.bind_eq_some_iff.mp hfresh
        cases hend
        rcases State.step_fresh_cases hs with ⟨-, h⟩ | ⟨-, h⟩ | ⟨hk, -⟩ | ⟨-, h⟩
        · cases h
        · cases h
        · exact hk
        · rcases State.startOperand_cases h with ⟨-, h⟩ | ⟨-, h⟩ <;> cases h

theorem step_named_eq {t : Token} (h : t.kind ≠ .assign) :
    State.step .named t = State.step (.operator []) t := by
  simp [State.step, h]

/-- Where a statement starts, reading an operand fails as reading the statement does. -/
theorem Fails.fresh {after : Token} {f : ParseFailure} (hafter : after.kind = .openParen)
    (hend : r.next.kind ≠ .endOfInput) (hterminator : r.next.kind ≠ .terminator)
    (hprint : r.next.kind ≠ .print)
    (hassign : r.next.kind = .name → (r.rest[1]?.getD r.ending).kind ≠ .assign)
    (h : Fails nestingLimit (.operand after []) r f r') : Fails nestingLimit .fresh r f r' := by
  have hnothing {ys : List Token} {m : State} (hrun : State.run (.operand after []) ys = some m)
      (hdeep : nestingLimit < m.opened.length) : State.run .fresh ys = some m := by
    have hne : ys ≠ [] := by
      rintro rfl
      cases hrun
      simp [State.opened] at hdeep
    rcases run_fresh hne hrun with hfresh | ⟨t, -, -, rfl, -⟩
    · exact hfresh
    · simp [State.opened] at hdeep
  cases h with
  | @refused ys m r' htakes hrun hsettled hrefuses =>
      by_cases hne : ys = []
      · subst hne
        cases hrun
        have hnext := htakes.next_of_nil
        rw [State.complaint_opening _ hafter]
        have hstep : State.step .fresh r'.next = none := by
          have hnone : State.startOperand [] r.next = none := by
            rw [← hnext]
            exact hrefuses.1
          rw [hnext]
          cases hk : r.next.kind <;> simp_all [State.step, State.startOperand]
        exact .refused htakes rfl hsettled ⟨hstep, fun hk => absurd (hnext ▸ hk) hend⟩
      · rcases run_fresh hne hrun with hfresh | ⟨t, rfl, hk, rfl, hfresh⟩
        · exact .refused htakes hfresh hsettled hrefuses
        · have hname : r.next = t := Reader.next_of_cons htakes.rest_eq
          have hother : r'.next.kind ≠ .assign := by
            rw [htakes.next_of_singleton]
            exact hassign (hname ▸ hk)
          have hsame : (State.operator []).complaint r'.next = State.named.complaint r'.next := rfl
          rw [hsame]
          refine .refused htakes hfresh hsettled ⟨?_, fun hk' => ?_⟩
          · rw [step_named_eq hother]
            exact hrefuses.1
          · exact absurd (hrefuses.2 hk') (by simp [State.complete])
  | @broken ys m middle r' e htakes hrun hbreaks =>
      by_cases hne : r.rest = []
      · exact .broken htakes (by rw [hne]; rfl) hbreaks
      · rcases run_fresh hne hrun with hfresh | ⟨t, -, -, -, hfresh⟩
        · exact .broken htakes hfresh hbreaks
        · exact .broken htakes hfresh hbreaks
  | deep htakes hrun hdeep => exact .deep htakes (hnothing hrun hdeep) hdeep
  | @buried ys zs m start r' htakes hrun hsettled hstart hstate hdeep =>
      have hne : ys ≠ [] := by
        rintro rfl
        cases hrun
      rcases run_fresh hne hrun with hfresh | ⟨t, -, -, hm, -⟩
      · exact .buried htakes hfresh hsettled hstart hstate hdeep
      · cases hm
  | unusable hmem hk hvalue => exact .unusable hmem hk hvalue

theorem ensures_bare (hend : r.ending.kind = .endOfInput) (hnext : r.next.kind ≠ .endOfInput)
    (hterminator : r.next.kind ≠ .terminator) (hprint : r.next.kind ≠ .print)
    (hassign : r.next.kind = .name → (r.rest[1]?.getD r.ending).kind ≠ .assign) :
    Ensures bare r (fun t r' => ∃ xs s, ReadsStatement r xs s t r')
      (Fails nestingLimit .fresh r) := by
  -- The rule is described in a state after a token; an opening parenthesis adds no complaint.
  let after : Token := Token.ofValue .openParen .absent .unknown
  refine Ensures.bind ((readsOperand_expression after r hend (State.complaint_opening _ rfl)).imp ?_
    fun f r' hfails => hfails.fresh rfl hnext hterminator hprint hassign)
  rintro body r' ⟨xs, hreads, hstops⟩
  have hne : xs ≠ [] := by
    rintro rfl
    cases hreads.run
  have hstatement {s : State} (hrun : State.run .fresh xs = some s) (hended : s.Ended)
      (hstep : r'.next.kind ≠ .terminator → s.step r'.next = none) :
      ReadsStatement r xs s (.bare body.pos body) r' :=
    { takes := hreads.takes
      run := hrun
      ended := hended
      settled := hstops.1
      stops := hstep
      isStatement := ⟨hreads.tiered, rfl⟩
      spells := hreads.spells }
  rcases run_fresh hne hreads.run with hfresh | ⟨t, rfl, hk, -, hfresh⟩
  · exact ⟨xs, .operator [], hstatement hfresh (Or.inl rfl) (stops_terminator hstops)⟩
  · refine ⟨[t], .named, hstatement hfresh (Or.inr rfl) fun hother => ?_⟩
    have hname : r.next = t := Reader.next_of_cons hreads.takes.rest_eq
    have hne' : r'.next.kind ≠ .assign := by
      rw [hreads.takes.next_of_singleton]
      exact hassign (hname ▸ hk)
    rw [step_named_eq hne']
    exact stops_terminator hstops hother

theorem ensures_looked {middle : Reader} {rule : Parse Tree} (htakes : r.Takes [] middle)
    (h : Ensures rule middle (fun t r' => ∃ xs s, ReadsStatement middle xs s t r')
      (Fails nestingLimit .fresh middle)) :
    Ensures rule middle (fun t r' => ∃ xs s, ReadsStatement r xs s t r')
      (Fails nestingLimit .fresh r) := by
  refine h.imp ?_ ?_
  · rintro t r' ⟨xs, s, hreads⟩
    exact ⟨xs, s, { hreads with takes := htakes.trans hreads.takes }⟩
  · intro f r' hfails
    exact hfails.after htakes rfl

theorem ensures_statement (hend : r.ending.kind = .endOfInput) (hsettled : r.Settled)
    (hnext : r.next.kind ≠ .endOfInput) (hterminator : r.next.kind ≠ .terminator) :
    Ensures statement r (fun t r' => ∃ xs s, ReadsStatement r xs s t r')
      (Fails nestingLimit .fresh r) := by
  refine Ensures.bind (ensures_current_of_settled hsettled ?_)
  split
  · next hk => exact ensures_printing hend hk
  · next hk =>
    refine Ensures.bind (ensures_peek (fun r' htakes _ => ?_) fun e r' hbreaks hlen => ?_)
    · have hend' := htakes.kind_ending hend
      have hsame := htakes.next_of_nil
      have hsame' : r'.rest[1]?.getD r'.ending = r.rest[1]?.getD r.ending := by
        rw [htakes.rest_of_nil, htakes.ending_eq]
      apply ensures_looked htakes
      split
      · next hassign => exact ensures_assignment hend' (by rwa [hsame]) (by rwa [hsame'])
      · next hassign =>
        refine ensures_bare hend' ?_ ?_ ?_ fun _ => ?_
        · rwa [hsame]
        · rwa [hsame]
        · simp [hsame, hk]
        · rwa [hsame']
    · obtain ⟨ts, hrest⟩ := Reader.rest_eq_cons hend hnext
      have hnil : ts = [] := by
        rw [hrest, List.length_cons] at hlen
        exact List.eq_nil_of_length_eq_zero (by omega)
      have hrun : State.run .fresh r.rest = some .named := by
        rw [hrest, hnil]
        exact State.run_singleton (by simp [State.step, hk])
      exact .broken (Reader.Takes.refl r) hrun hbreaks
  · next hprint hname =>
    exact ensures_bare hend hnext hterminator hprint fun hk => absurd hk hname

/-! ## Programs -/

theorem ensures_ifTooDeep {replacement : ParseFailure} {rule : Parse Tree}
    {good : Tree → Reader → Prop} {bad : ParseFailure → Reader → Prop}
    (h : Ensures rule r good fun f r' => (f = .tooDeep → bad replacement r') ∧
      (f ≠ .tooDeep → bad f r')) : Ensures (ifTooDeep rule replacement) r good bad := by
  unfold Ensures at h
  unfold Ensures ifTooDeep
  match hrule : rule r with
  | (.ok t, r') => simpa only [hrule] using h
  | (.error f, r') =>
      simp only [hrule] at h
      cases f with
      | tooDeep => exact h.1 rfl
      | _ => exact h.2 (by simp)

theorem numberOf_cases {value : Value} {f : ParseFailure} (h : numberOf value = .error f) :
    (∃ text, f = .notANumber text) ∨ f = .integerTooLarge ∨ f = .valueMissing := by
  unfold numberOf at h
  split at h
  · cases h
  · split at h
    · cases h
    · cases h
      exact Or.inl ⟨_, rfl⟩
  · split at h
    · cases h
    · cases h
      exact Or.inr (Or.inl rfl)
  · cases h
  · cases h
    exact Or.inr (Or.inr rfl)

theorem ensures_terminators (n : Nat) (hlen : r.rest.length < n)
    (hend : r.ending.kind = .endOfInput) :
    Ensures (terminators n) r
      (fun _ r' => ∃ xs, r.Takes xs r' ∧ (∀ x ∈ xs, x.kind = .terminator) ∧ r'.Settled ∧
        r'.next.kind ≠ .terminator)
      (Fails nestingLimit .fresh r) := by
  induction n generalizing r with
  | zero => omega
  | succ n ih =>
      rw [terminators]
      refine Ensures.bind (ensures_accept hend (by decide) ?_ ?_ ?_)
      · intro middle hk htakes
        have hless := htakes.length_lt
        refine (ih (by omega) (htakes.kind_ending hend)).imp ?_ ?_
        · rintro - r' ⟨xs, htakes', hxs, hsettled⟩
          refine ⟨[r.next] ++ xs, htakes.trans htakes', ?_, hsettled⟩
          rintro x (_ | ⟨_, hx⟩)
          · exact hk
          · exact hxs x hx
        · intro f r' hfails
          exact hfails.after htakes (State.run_singleton (by simp [State.step, hk]))
      · intro r' hk htakes hsettled
        refine ⟨[], htakes, by simp, hsettled, ?_⟩
        rwa [htakes.next_of_nil]
      · intro e r' hbreaks hnil
        exact .at_once hbreaks hnil

theorem run_terminators (h : ∀ x ∈ xs, x.kind = .terminator) :
    State.run .fresh xs = some .fresh := by
  induction xs with
  | nil => rfl
  | cons t ts ih =>
      have hstep : State.step .fresh t = some .fresh := by
        simp [State.step, h t List.mem_cons_self]
      rw [State.run_cons, hstep]
      exact ih fun x hx => h x (List.mem_cons_of_mem t hx)

theorem layout_terminators {statements : List Tree} {ys : List Token}
    (h : ∀ x ∈ xs, x.kind = .terminator) (hlayout : Tree.Layout statements ys) :
    Tree.Layout statements (xs ++ ys) := by
  induction xs with
  | nil => exact hlayout
  | cons t ts ih =>
      exact .skip (h t List.mem_cons_self) (ih fun x hx => h x (List.mem_cons_of_mem t hx))

theorem statements_at_end (n : Nat) (hsettled : r.Settled) (hk : r.next.kind = .endOfInput) :
    statements n r = (.ok [], r) := by
  cases n with
  | zero => rfl
  | succ n =>
      have haccept : accept [.terminator] r = (.ok none, r) := by
        simp [accept, bind_apply, current_of_settled hsettled, hk, pure_apply]
      have hterminators : terminators (r.budget + 1) r = (.ok (), r) := by
        simp [terminators, bind_apply, haccept, pure_apply]
      simp [statements, bind_apply, fuel, hterminators, current_of_settled hsettled, hk, pure_apply]

theorem takes_record (event : Event) : r.Takes [] (r.record event) :=
  ⟨rfl, rfl, rfl, rfl⟩

/-- The statements after one that was read: either the input ends or a terminator follows. -/
theorem ensures_further {n : Nat} {first : Tree} {s : State}
    (h : ReadsStatement r xs s first r') (hend : r.ending.kind = .endOfInput)
    (hlen : r'.rest.length ≤ n)
    (hstatements : ∀ middle : Reader, middle.rest.length < n → middle.ending.kind = .endOfInput →
      Ensures (statements n) middle (fun ts r'' => ∃ ys, ReadsProgram middle ys ts r'')
        (Fails nestingLimit .fresh middle)) :
    Ensures (current >>= fun following => do
        if following.kind ≠ .endOfInput then
          let _ ← expect [.terminator]
        return first :: (← statements n)) r'
      (fun ts r'' => ∃ ys, ReadsProgram r ys ts r'') (Fails nestingLimit .fresh r) := by
  refine Ensures.bind (ensures_current_of_settled h.settled ?_)
  have hend' := h.takes.kind_ending hend
  split
  · next hk =>
    refine Ensures.bind (ensures_expect hend' (by decide) ?_ ?_ ?_)
    · intro middle hterminator htakes
      have hway : State.run .fresh (xs ++ [r'.next]) = some .fresh :=
        State.run_trans h.run (State.run_singleton (h.ended.step hterminator))
      have hless := htakes.length_lt
      refine Ensures.bind ((hstatements middle (by omega) (htakes.kind_ending hend')).imp ?_
        fun f r'' hfails => hfails.after (h.takes.trans htakes) hway)
      rintro ts r'' ⟨ys, hprogram⟩
      obtain ⟨s', hrun, hcomplete⟩ := hprogram.run
      refine ⟨xs ++ r'.next :: ys, ?_⟩
      exact
        { takes := h.takes.trans (htakes.trans hprogram.takes)
          run := ⟨s', by simpa using State.run_trans hway hrun, hcomplete⟩
          settled := hprogram.settled
          atEnd := hprogram.atEnd
          isStatement := List.forall_mem_cons.mpr ⟨h.isStatement, hprogram.isStatement⟩
          layout := fun hlex => .cons (h.spells fun x hx => hlex x (List.mem_append_left _ hx))
            hterminator (hprogram.layout fun x hx =>
              hlex x (List.mem_append_right _ (List.mem_cons_of_mem _ hx))) }
    · intro r'' hterminator htakes hsettled
      have hnext := htakes.next_of_nil
      have hcomplaint : s.complaint r''.next = .unexpected r'.next := by
        rw [hnext]
        rcases h.ended with rfl | rfl <;> rfl
      rw [← hcomplaint]
      have htaken := h.takes.trans htakes
      rw [List.append_nil] at htaken
      refine .refused htaken h.run hsettled ⟨?_, fun hk' => absurd (hnext ▸ hk') hk⟩
      rw [hnext]
      exact h.stops hterminator
    · intro e r'' hbreaks hnil
      exact .of_breaks h.takes h.run hbreaks hnil
  · next hk =>
    have hlast : r'.next.kind = .endOfInput := not_not.mp hk
    have hstatements : Ensures (statements n) r' (fun ts r'' => ts = [] ∧ r'' = r')
        (Fails nestingLimit .fresh r) := by
      rw [Ensures, statements_at_end n h.settled hlast]
      exact ⟨rfl, rfl⟩
    refine Ensures.bind (hstatements.imp ?_ fun f r'' hfails => hfails)
    rintro ts r'' ⟨rfl, rfl⟩
    refine ⟨xs, ?_⟩
    exact
      { takes := h.takes
        run := ⟨s, h.run, h.ended.complete⟩
        settled := h.settled
        atEnd := hlast
        isStatement := by simpa using h.isStatement
        layout := fun hlex => .last (h.spells hlex) }

theorem ensures_first (hend : r.ending.kind = .endOfInput) (hsettled : r.Settled)
    (hnext : r.next.kind ≠ .endOfInput) (hterminator : r.next.kind ≠ .terminator) :
    Ensures (ifTooDeep statement (.parse ⟨.tooDeep, r.next⟩)) r
      (fun t r' => ∃ xs s, ReadsStatement r xs s t r') (Fails nestingLimit .fresh r) := by
  refine ensures_ifTooDeep ((ensures_statement hend hsettled hnext hterminator).imp
    (fun t r' hreads => hreads) fun f r' hfails => ⟨?_, fun _ => hfails⟩)
  rintro rfl
  cases hfails with
  | deep htakes hrun hdeep => exact .buried (Reader.Takes.refl r) rfl hsettled htakes hrun hdeep
  | unusable hmem hk hvalue => simpa using numberOf_cases hvalue

theorem ensures_statements (n : Nat) (hlen : r.rest.length < n)
    (hend : r.ending.kind = .endOfInput) :
    Ensures (statements n) r (fun ts r' => ∃ xs, ReadsProgram r xs ts r')
      (Fails nestingLimit .fresh r) := by
  induction n generalizing r with
  | zero => omega
  | succ n ih =>
      rw [statements]
      refine Ensures.bind (ensures_fuel fun m hm => ?_)
      refine Ensures.bind ((ensures_terminators m hm hend).imp ?_ fun f r' hfails => hfails)
      rintro - start ⟨ws, htakes, hws, hsettled, hterminator⟩
      have hend' := htakes.kind_ending hend
      refine Ensures.bind (ensures_current_of_settled hsettled ?_)
      split
      · next hk =>
        refine ⟨ws, htakes, ⟨.fresh, run_terminators hws, rfl⟩, hsettled, hk, by simp, fun _ => ?_⟩
        simpa using layout_terminators hws .nil
      · next hk =>
        refine Ensures.bind ((ensures_first hend' hsettled hk hterminator).imp ?_
          fun f r' hfails => hfails.after htakes (run_terminators hws))
        rintro first r' ⟨xs, s, hreads⟩
        have hrecord : r'.Takes [] (r'.record (.parsed first.kind first.pos)) := takes_record _
        have hreads' : ReadsStatement start xs s first (r'.record _) :=
          { hreads with
            takes := by simpa using hreads.takes.trans hrecord
            settled := hreads.settled
            stops := hreads.stops }
        have hne : xs ≠ [] := by
          rintro rfl
          cases hreads.run
          simpa [State.Ended] using hreads.ended
        have hlen' : (r'.record (.parsed first.kind first.pos)).rest.length ≤ n := by
          have hpos := List.length_pos_iff.mpr hne
          have hrest := htakes.length_rest
          have hrest' := hreads'.takes.length_rest
          omega
        refine (ensures_further hreads' hend' hlen' fun middle hless hmiddle =>
          ih hless hmiddle).imp ?_ fun f r'' hfails => hfails.after htakes (run_terminators hws)
        rintro ts r'' ⟨ys, hprogram⟩
        obtain ⟨s', hrun, hcomplete⟩ := hprogram.run
        exact ⟨ws ++ ys,
          { hprogram with
            takes := htakes.trans hprogram.takes
            run := ⟨s', State.run_trans (run_terminators hws) hrun, hcomplete⟩
            layout := fun hlex => layout_terminators hws
              (hprogram.layout fun x hx => hlex x (List.mem_append_right _ hx)) }⟩

theorem ensures_program (hend : r.ending.kind = .endOfInput) :
    Ensures program r (fun ts r' => ∃ xs, ReadsProgram r xs ts r')
      (Fails nestingLimit .fresh r) := by
  refine Ensures.bind (ensures_fuel fun n hlen => ?_)
  exact ensures_statements n hlen hend

end Rules

end Reckoner.Parse
