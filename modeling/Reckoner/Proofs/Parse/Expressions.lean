import Reckoner.Proofs.Parse.Outcome

/-!
# Rules for expressions

Each rule reads an operand of its tier. The loops carry the invariant that what was read so far is
an operand of the tier, whatever the number of rounds left; there are more rounds than tokens, so
that a loop only ends at a token that does not belong to it. Parentheses nest by recursion on the
number of them that may still be opened.
-/

namespace Reckoner.Parse

open Grammar

section Rules

variable {limit : Nat} {after tok : Token} {opened : List Position} {r r' start : Reader}
  {xs : List Token} {t : Tree}

theorem ensures_bangs (n : Nat) (hlen : r.rest.length < n)
    (hend : start.ending.kind = .endOfInput) (h : Reads 3 after opened start xs t r) :
    Ensures (bangs n t) r (fun t' r' => ∃ ys, Reads 3 after opened start ys t' r' ∧ Stops 3 r')
      (Fails limit (.operand after opened) start) := by
  induction n generalizing r xs t with
  | zero => omega
  | succ n ih =>
      rw [bangs]
      refine Ensures.bind (ensures_accept (h.takes.kind_ending hend) (by decide) ?_ ?_ ?_)
      · intro r' hk htakes
        have hless := htakes.length_lt
        exact ih (by omega) (h.factorial htakes hk)
      · intro r' hk htakes hsettled
        refine ⟨xs, { h with takes := ?_ }, hsettled, ?_⟩
        · simpa using h.takes.trans htakes
        · intro b hb
          rw [htakes.next_of_nil, Token.Kind.rank?, if_neg hk] at hb
          obtain ⟨op, -, rfl⟩ := Option.map_eq_some_iff.mp hb
          exact op.rank_lt
      · intro e r' hbreaks hnil
        exact .of_breaks h.takes h.run hbreaks hnil

theorem ensures_unlessEnd {problem : ParseProblem} {rule : Parse Tree} {k : Nat}
    (hrule : ReadsOperand limit k opened rule) (hend : r.ending.kind = .endOfInput)
    (hproblem : ∀ tok : Token, tok.kind.isEnd = true →
      (State.operand after opened).complaint tok = ⟨problem, tok⟩) :
    Ensures (unlessEnd problem rule) r
      (fun t r' => ∃ ys, Reads k after opened r ys t r' ∧ Stops k r')
      (Fails limit (.operand after opened) r) := by
  refine Ensures.bind (ensures_current ?_ ?_)
  · intro r' htakes hsettled
    split
    · next hk =>
      have hnext := htakes.next_of_nil
      apply ensures_reject
      rw [← hproblem r.next hk, ← hnext]
      refine .refused htakes rfl hsettled ⟨?_, fun _ => rfl⟩
      rw [hnext]
      cases hkind : r.next.kind <;>
        simp_all [State.step, State.startOperand, Token.Kind.isEnd]
    · next hk =>
      have hsame : (State.operand after opened).complaint r'.next = .unexpected r'.next := by
        rw [htakes.next_of_nil]
        exact State.complaint_operand (by simpa using hk)
      refine (hrule after r' (htakes.kind_ending hend) hsame).imp ?_ ?_
      · rintro t r'' ⟨ys, hreads, hstops⟩
        exact ⟨ys, { hreads with takes := htakes.trans hreads.takes }, hstops⟩
      · intro f r'' hfails
        exact hfails.after htakes rfl
  · intro e r' hbreaks hnil
    exact .at_once hbreaks hnil

/-- Whether the operators are those of one tier. -/
def IsTier (k : Nat) (operators : Token.Kind → Option Operator) : Prop :=
  ∀ kind op, operators kind = some op ↔ operator? kind = some op ∧ op.rank = k

theorem stops_of_not_operator {k : Nat} {operators : Token.Kind → Option Operator}
    (htier : IsTier k operators) (h : Stops (k + 1) r) (hnone : operators r.next.kind = none)
    (hk : k < 3) : Stops k r := by
  refine ⟨h.1, fun b hb => ?_⟩
  have hlt := h.2 b hb
  apply lt_of_le_of_ne (Nat.le_of_lt_succ hlt)
  rintro rfl
  by_cases hbang : r.next.kind = .bang
  · simp only [Token.Kind.rank?, if_pos hbang, Option.some.injEq] at hb
    omega
  · rw [Token.Kind.rank?, if_neg hbang] at hb
    obtain ⟨op, hop, hrank⟩ := Option.map_eq_some_iff.mp hb
    rw [(htier _ op).mpr ⟨hop, hrank⟩] at hnone
    cases hnone

theorem ensures_chain {k : Nat} {operators : Token.Kind → Option Operator}
    {operand : Parse Tree} (htier : IsTier k operators) (hk : k < 3)
    (hoperand : ReadsOperand limit (k + 1) opened operand) (n : Nat)
    (hlen : r.rest.length < n) (hend : start.ending.kind = .endOfInput)
    (h : Reads k after opened start xs t r) (hstops : Stops (k + 1) r) :
    Ensures (chain operators operand n t) r
      (fun t' r' => ∃ ys, Reads k after opened start ys t' r' ∧ Stops k r')
      (Fails limit (.operand after opened) start) := by
  induction n generalizing r xs t with
  | zero => omega
  | succ n ih =>
      rw [chain]
      refine Ensures.bind (ensures_current_of_settled hstops.1 ?_)
      split
      · next hnone =>
        exact ⟨xs, h, stops_of_not_operator htier hstops hnone hk⟩
      · next op hop =>
        obtain ⟨hop, rfl⟩ := (htier _ op).mp hop
        have hne : r.next.kind ≠ .endOfInput := by
          intro hkind
          simp [hkind, operator?] at hop
        refine Ensures.bind (ensures_advance hstops.1 (h.takes.kind_ending hend) hne ?_)
        intro r' htakes
        have hway : State.run (.operand after opened) (xs ++ [r.next]) =
            some (.operand r.next opened) :=
          State.run_trans h.run (State.run_singleton (State.step_operator hop opened))
        have hmissing (tok : Token) (htok : tok.kind.isEnd = true) :
            (State.operand r.next opened).complaint tok =
              ⟨.missingOperand r.next.value, tok⟩ := by
          have hneither : ¬ (r.next.kind = .print ∨ r.next.kind = .assign) := by
            rintro (hkind | hkind) <;> simp [hkind, operator?] at hop
          simp [State.complaint, htok, hneither, hop]
        have hend' := (h.takes.trans htakes).kind_ending hend
        refine Ensures.bind ((ensures_unlessEnd hoperand hend' hmissing).imp ?_ ?_)
        · rintro right r'' ⟨ys, hreads, hstops'⟩
          have hless := htakes.length_lt
          have hrest := hreads.takes.length_rest
          exact ih (by omega) (h.binary htakes hop hreads) hstops'
        · intro f r'' hfails
          exact hfails.after (h.takes.trans htakes) hway

theorem readsOperand_tier {k : Nat} {operators : Token.Kind → Option Operator}
    {operand : Parse Tree} (htier : IsTier k operators) (hk : k < 3)
    (hoperand : ReadsOperand limit (k + 1) opened operand) :
    ReadsOperand limit k opened (tier operators operand) := by
  intro after r hend hcomplaint
  refine Ensures.bind ((hoperand after r hend hcomplaint).imp ?_ fun f r' hfails => hfails)
  rintro left r' ⟨xs, hreads, hstops⟩
  refine Ensures.bind (ensures_fuel fun n hlen => ?_)
  exact ensures_chain htier hk hoperand n hlen hend (hreads.mono (Nat.le_succ k)) hstops

/-- After an operand, what neither extends it nor closes a parenthesis nor ends the statement is
refused. -/
theorem step_of_stops (h : Stops 0 r) (hclose : r.next.kind = .closeParen → opened = [])
    (hterminator : r.next.kind = .terminator → opened ≠ []) :
    State.step (.operator opened) r.next = none := by
  rw [Option.eq_none_iff_forall_ne_some]
  intro s hstep
  have hnone : r.next.kind.rank? = none := by
    rw [Option.eq_none_iff_forall_ne_some]
    intro b hb
    exact absurd (h.2 b hb) (Nat.not_lt_zero b)
  rcases State.extendOperand_cases hstep with ⟨op, hop, -⟩ | ⟨hbang, -⟩ |
    ⟨innermost, outer, hk, hopened, -⟩ | ⟨hk, hopened, -⟩
  · rw [Operator.token_eq_of_operator? hop, Operator.rank?_token] at hnone
    cases hnone
  · simp [Token.Kind.rank?, hbang] at hnone
  · rw [hclose hk] at hopened
    cases hopened
  · exact hterminator hk hopened

theorem ensures_group {nested : Parse Tree}
    (hnested : ∀ pos, ReadsOperand limit 0 (pos :: opened) nested)
    (hend : r.ending.kind = .endOfInput) (hk : r.next.kind = .openParen) :
    Ensures (group nested) r (fun t r' => ∃ xs, Reads 4 after opened r xs t r')
      (Fails limit (.operand after opened) r) := by
  refine Ensures.bind (ensures_expect hend (by decide) ?_ (fun r' hother => absurd hk hother) ?_)
  · intro middle _ htakes
    have hway : State.run (.operand after opened) [r.next] =
        some (.operand r.next (r.next.pos :: opened)) :=
      State.run_singleton (by simp [State.step, State.startOperand, hk])
    refine Ensures.bind ((hnested r.next.pos r.next middle (htakes.kind_ending hend)
      (State.complaint_opening _ hk)).imp ?_ fun f r' hfails => hfails.after htakes hway)
    rintro inner r' ⟨xs, hreads, hstops⟩
    have hend' := (htakes.trans hreads.takes).kind_ending hend
    have hrun : State.run (.operand after opened) ([r.next] ++ xs) =
        some (.operator (r.next.pos :: opened)) := State.run_trans hway hreads.run
    refine Ensures.bind (ensures_accept hend' (by decide) ?_ ?_ ?_)
    · intro r'' hclosing htakes'
      exact ⟨_, Reads.group htakes hk hreads htakes' hclosing⟩
    · intro r'' hclosing htakes' hsettled'
      refine Ensures.bind (ensures_current_of_settled hsettled' ?_)
      have hnext := htakes'.next_of_nil
      have hrefuses : (State.operator (r.next.pos :: opened)).Refuses r''.next := by
        rw [hnext]
        exact ⟨step_of_stops hstops (fun hk => absurd hk hclosing) (by simp), fun _ => rfl⟩
      have hway' := (htakes.trans hreads.takes).trans htakes'
      rw [List.append_nil] at hway'
      have hfails : Fails limit (.operand after opened) r _ r'' :=
        .refused hway' hrun hsettled' hrefuses
      split
      · next hisEnd =>
        apply ensures_reject
        simpa [State.complaint, hisEnd] using hfails
      · next hisEnd =>
        apply ensures_reject
        simpa [State.complaint, hisEnd] using hfails
    · intro e r'' hbreaks hnil
      exact .of_breaks (htakes.trans hreads.takes) hrun hbreaks hnil
  · intro e r' hbreaks hnil
    exact .at_once hbreaks hnil

theorem startOperand_eq_none {tok : Token} (hnumber : tok.kind ≠ .number)
    (hname : tok.kind ≠ .name) (hopen : tok.kind ≠ .openParen) :
    State.startOperand opened tok = none := by
  rw [Option.eq_none_iff_forall_ne_some]
  intro s hstep
  rcases State.startOperand_cases hstep with ⟨hk | hk, -⟩ | ⟨hk, -⟩
  · exact hnumber hk
  · exact hname hk
  · exact hopen hk

theorem reads_number {x : Float} (htakes : r.Takes [tok] r') (hk : tok.kind = .number)
    (hvalue : numberOf tok.value = .ok x) :
    Reads 4 after opened r [tok] (.number tok.pos x) r' where
  takes := htakes
  run := State.run_singleton (by simp [State.step, State.startOperand, hk])
  tiered := .number tok.pos x
  le_rank := Nat.le_refl 4
  spells hlex := by
    have htok := hlex tok (List.mem_singleton_self tok)
    simp only [Token.Lexical, hk] at htok
    obtain ⟨y, hy⟩ := htok
    rw [hy] at hvalue
    cases hvalue
    simp [Tree.Spells, Tree.marks, Token.mark, hk, hy]

theorem reads_name (htakes : r.Takes [tok] r') (hk : tok.kind = .name) :
    Reads 4 after opened r [tok] (.name tok.pos tok.value.display) r' where
  takes := htakes
  run := State.run_singleton (by simp [State.step, State.startOperand, hk])
  tiered := .name tok.pos tok.value.display
  le_rank := Nat.le_refl 4
  spells hlex := by
    have htok := hlex tok (List.mem_singleton_self tok)
    simp only [Token.Lexical, hk] at htok
    obtain ⟨id, hid⟩ := htok
    simp [Tree.Spells, Tree.marks, Token.mark, hk, hid, Value.display]

theorem ensures_primary {nested : Parse Tree}
    (hnested : ∀ pos, ReadsOperand limit 0 (pos :: opened) nested)
    (hend : r.ending.kind = .endOfInput)
    (hcomplaint : (State.operand after opened).complaint r.next = .unexpected r.next) :
    Ensures (primary nested) r (fun t r' => ∃ xs, Reads 4 after opened r xs t r')
      (Fails limit (.operand after opened) r) := by
  refine Ensures.bind (ensures_current ?_ ?_)
  · intro middle htakes hsettled
    have hnext := htakes.next_of_nil
    have hend' := htakes.kind_ending hend
    split
    · next hk =>
      refine Ensures.bind (ensures_advance hsettled hend' (by simp [hnext, hk]) ?_)
      intro r' htakes'
      rw [hnext] at htakes'
      have htaken := htakes.trans htakes'
      split
      · next x hvalue =>
        exact ⟨_, reads_number htaken hk hvalue⟩
      · next f hvalue =>
        refine Fails.unusable ?_ hk hvalue
        simp [htaken.rest_eq]
    · next hk =>
      refine Ensures.bind (ensures_advance hsettled hend' (by simp [hnext, hk]) ?_)
      intro r' htakes'
      rw [hnext] at htakes'
      exact ⟨_, reads_name (htakes.trans htakes') hk⟩
    · next hk =>
      have hgroup : Ensures (group nested) middle _ (Fails limit (.operand after opened) middle) :=
        ensures_group hnested hend' (by rwa [hnext])
      refine hgroup.imp ?_ ?_
      · rintro t r' ⟨xs, hreads⟩
        exact ⟨xs, { hreads with takes := htakes.trans hreads.takes }⟩
      · intro f r' hfails
        exact hfails.after htakes rfl
    · next hnumber hname hopen =>
      apply ensures_reject
      rw [← hcomplaint, ← hnext]
      refine .refused htakes rfl hsettled ⟨?_, fun _ => rfl⟩
      rw [hnext]
      exact startOperand_eq_none hnumber hname hopen
  · intro e r' hbreaks hnil
    exact .at_once hbreaks hnil

theorem readsOperand_suffixed {nested : Parse Tree}
    (hnested : ∀ pos, ReadsOperand limit 0 (pos :: opened) nested) :
    ReadsOperand limit 3 opened (suffixed nested) := by
  intro after r hend hcomplaint
  refine Ensures.bind ((ensures_primary hnested hend hcomplaint).imp ?_ fun f r' hfails => hfails)
  rintro t r' ⟨xs, hreads⟩
  refine Ensures.bind (ensures_fuel fun n hlen => ?_)
  exact ensures_bangs n hlen hend (hreads.mono (by decide))

theorem isTier_additive : IsTier 0 additive? := by
  intro kind op
  cases kind <;> cases op <;> simp [additive?, operator?, Operator.rank]

theorem isTier_multiplicative : IsTier 1 multiplicative? := by
  intro kind op
  cases kind <;> cases op <;> simp [multiplicative?, operator?, Operator.rank]

theorem isTier_exponential : IsTier 2 exponential? := by
  intro kind op
  cases kind <;> cases op <;> simp [exponential?, operator?, Operator.rank]

theorem readsOperand_sum {nested : Parse Tree}
    (hnested : ∀ pos, ReadsOperand limit 0 (pos :: opened) nested) :
    ReadsOperand limit 0 opened (sum nested) := by
  have hfactor : ReadsOperand limit 2 opened (factor nested) :=
    readsOperand_tier isTier_exponential (by decide) (readsOperand_suffixed hnested)
  have hterm : ReadsOperand limit 1 opened (term nested) :=
    readsOperand_tier isTier_multiplicative (by decide) hfactor
  exact readsOperand_tier isTier_additive (by decide) hterm

end Rules

/-- An expression with as many parentheses as may still be opened. -/
theorem readsOperand_within {limit : Nat} (n : Nat) {opened : List Position}
    (h : opened.length + n = limit + 1) : ReadsOperand limit 0 opened (within n) := by
  induction n generalizing opened with
  | zero =>
      intro after r hend hcomplaint
      have hdeep : limit < (State.operand after opened).opened.length := by
        simp only [State.opened]
        omega
      exact Fails.deep (Reader.Takes.refl r) rfl hdeep
  | succ n ih =>
      refine readsOperand_sum fun pos => ih ?_
      simp only [List.length_cons]
      omega

theorem readsOperand_expression : ReadsOperand nestingLimit 0 [] expression :=
  readsOperand_within (nestingLimit + 1) (Nat.zero_add _)

end Reckoner.Parse
