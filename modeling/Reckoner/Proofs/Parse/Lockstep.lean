import Reckoner.Proofs.Parse.Programs

/-!
# Readers in lockstep

The rules do nothing with a reader but look at one or two tokens, take a token that is not the end
of the input, and record what was parsed. Two readers that stay related as long as this is all that
happens to them stay related through every rule. The rules then end alike with both: in the same
trees, or in failures that differ at most in the token that they show. Loops may be given another
number of rounds with the second reader, since there are enough of them with both.
-/

namespace Reckoner.Parse

/-- Whether two failures are the same but for the token of a parse error. -/
inductive FailsLike (T : Token → Token → Prop) : ParseFailure → ParseFailure → Prop
  | token {problem : ParseProblem} {t t' : Token} :
      T t t' → FailsLike T (.parse ⟨problem, t⟩) (.parse ⟨problem, t'⟩)
  | other {f : ParseFailure} : (∀ e, f ≠ .parse e) → FailsLike T f f

/-- Whether two runs end alike with related readers, and the number of tokens to come is bounded. -/
inductive Agree {α : Type} (T : Token → Token → Prop) (R : Reader → Reader → Prop)
    (V : α → α → Prop) (bound : Nat) :
    Except ParseFailure α × Reader → Except ParseFailure α × Reader → Prop
  | ok {a a' : α} {s s' : Reader} :
      V a a' → R s s' → s.rest.length ≤ bound → Agree T R V bound (.ok a, s) (.ok a', s')
  | error {f f' : ParseFailure} {s s' : Reader} :
      FailsLike T f f' → R s s' → s.rest.length ≤ bound →
        Agree T R V bound (.error f, s) (.error f', s')

/-- Whether related readers stay related in all that the rules do with them, and show related
tokens, which are of the same kind, and the same unless they are the end of the input. -/
structure Lockstep (T : Token → Token → Prop) (R : Reader → Reader → Prop) : Prop where
  kind_eq : ∀ {t t'}, T t t' → t'.kind = t.kind
  token_eq : ∀ {t t'}, T t t' → t.kind ≠ .endOfInput → t' = t
  kind_ending : ∀ {r r'}, R r r' → r.ending.kind = .endOfInput
  length_le : ∀ {r r'}, R r r' → r.rest.length ≤ r'.rest.length
  peek : ∀ {r r'} (k : Nat), R r r' → k ≤ r.rest.length →
    Agree T R T r.rest.length (peek k r) (peek k r')
  drop : ∀ {r r'}, R r r' → r.Settled → r'.Settled → r.next.kind ≠ .endOfInput →
    R r.drop r'.drop
  record : ∀ {r r'} (event : Event), R r r' → R (r.record event) (r'.record event)

/-- Whether a rule ends alike with readers that are related. -/
def Parallel {α : Type} (T : Token → Token → Prop) (R : Reader → Reader → Prop)
    (step : Parse α) : Prop :=
  ∀ r r', R r r' → Agree T R Eq r.rest.length (step r) (step r')

theorem takes_of_current {r s : Reader} {t : Token} (h : current r = (.ok t, s)) :
    t = r.next ∧ r.Takes [] s ∧ s.Settled := by
  have hcurrent : Ensures current r (fun t s => t = r.next ∧ r.Takes [] s ∧ s.Settled)
      (fun _ _ => True) :=
    ensures_current (fun s htakes hsettled => ⟨rfl, htakes, hsettled⟩) fun _ _ _ _ => trivial
  exact hcurrent.of_ok h

variable {α β : Type} {T : Token → Token → Prop} {R : Reader → Reader → Prop}
  {V : α → α → Prop} {W : β → β → Prop} {b : Nat} {r r' : Reader}

/-! ## How runs end -/

section Ends

variable {o o' : Except ParseFailure α × Reader}

theorem Agree.related (h : Agree T R V b o o') : R o.2 o'.2 := by
  cases h with
  | ok _ hr _ => exact hr
  | error _ hr _ => exact hr

theorem Agree.ok_iff (h : Agree T R Eq b o o') (a : α) : o'.1 = .ok a ↔ o.1 = .ok a := by
  cases h with
  | ok hv _ _ => rw [hv]
  | error _ _ _ => simp

theorem Agree.parse_error (h : Agree T R V b o o') {problem : ParseProblem} {t : Token}
    (herror : o.1 = .error (.parse ⟨problem, t⟩)) :
    ∃ t', T t t' ∧ o'.1 = .error (.parse ⟨problem, t'⟩) := by
  cases h with
  | ok _ _ _ => cases herror
  | error hf _ _ =>
      cases herror
      cases hf with
      | token ht => exact ⟨_, ht, rfl⟩
      | other hother => exact absurd rfl (hother _)

theorem Agree.other_iff (h : Agree T R V b o o') {f : ParseFailure} (hother : ∀ e, f ≠ .parse e) :
    o'.1 = .error f ↔ o.1 = .error f := by
  cases h with
  | ok _ _ _ => simp
  | error hf _ _ =>
      cases hf with
      | token _ => simp [(hother _).symm]
      | other _ => exact Iff.rfl

end Ends

/-! ## Steps in sequence -/

theorem Agree.mono {b' : Nat} {o o' : Except ParseFailure α × Reader} (h : Agree T R V b o o')
    (hle : b ≤ b') : Agree T R V b' o o' := by
  cases h with
  | ok hv hr hlen => exact .ok hv hr (hlen.trans hle)
  | error hf hr hlen => exact .error hf hr (hlen.trans hle)

theorem Agree.bind {step step' : Parse α} {next next' : α → Parse β}
    (h : Agree T R V b (step r) (step' r'))
    (hnext : ∀ a a' s s', step r = (.ok a, s) → step' r' = (.ok a', s') → V a a' → R s s' →
      s.rest.length ≤ b → Agree T R W b (next a s) (next' a' s')) :
    Agree T R W b ((step >>= next) r) ((step' >>= next') r') := by
  rw [bind_apply, bind_apply]
  generalize hstep : step r = o at h
  generalize hstep' : step' r' = o' at h
  cases h with
  | ok hv hr hlen => exact hnext _ _ _ _ hstep hstep' hv hr hlen
  | error hf hr hlen => exact .error hf hr hlen

theorem Parallel.bind {step : Parse α} {next next' : α → Parse β} (h : Parallel T R step)
    (hr : R r r')
    (hnext : ∀ a s s', R s s' → s.rest.length ≤ r.rest.length →
      Agree T R W r.rest.length (next a s) (next' a s')) :
    Agree T R W r.rest.length ((step >>= next) r) ((step >>= next') r') := by
  apply (h r r' hr).bind
  rintro a _ s s' - - rfl hs hle
  exact hnext a s s' hs hle

theorem Parallel.map {step : Parse α} (h : Parallel T R step) (f : α → β) :
    Parallel T R (step >>= fun a => pure (f a)) :=
  fun _ _ hr => h.bind hr fun _ _ _ hs hle => .ok rfl hs hle

theorem Parallel.ifTooDeep {step : Parse α} (h : Parallel T R step) (hr : R r r')
    {problem : ParseProblem} {t t' : Token} (ht : T t t') :
    Agree T R Eq r.rest.length (ifTooDeep step (.parse ⟨problem, t⟩) r)
      (ifTooDeep step (.parse ⟨problem, t'⟩) r') := by
  have hagree := h r r' hr
  unfold Parse.ifTooDeep
  generalize step r = o at hagree
  generalize step r' = o' at hagree
  cases hagree with
  | ok hv hs hlen => exact .ok hv hs hlen
  | @error f f' s s' hf hs hlen =>
      cases hf with
      | token ht' => exact .error (.token ht') hs hlen
      | other hf =>
          cases f with
          | tooDeep => exact .error (.token ht) hs hlen
          | parse e => exact absurd rfl (hf e)
          | _ => exact .error (.other hf) hs hlen

namespace Lockstep

variable (L : Lockstep T R)

include L

/-! ## Single tokens -/

/-- Loops are given enough rounds with both readers. -/
theorem lt_budget (hr : R r r') :
    r.rest.length < r.budget + 1 ∧ r.rest.length < r'.budget + 1 := by
  have hle := L.length_le hr
  have hlen := r.length_rest_le
  have hlen' := r'.length_rest_le
  omega

theorem current_bind {next next' : Token → Parse β} (hr : R r r')
    (hnext : ∀ s s', R s s' → T s.next s'.next → s.Settled → s'.Settled →
      s.rest.length = r.rest.length → Agree T R W r.rest.length (next s.next s) (next' s'.next s')) :
    Agree T R W r.rest.length ((current >>= next) r) ((current >>= next') r') := by
  apply (L.peek 0 hr (Nat.zero_le _)).bind
  intro t t' s s' hstep hstep' ht hs hle
  obtain ⟨rfl, htakes, hsettled⟩ := takes_of_current hstep
  obtain ⟨rfl, htakes', hsettled'⟩ := takes_of_current hstep'
  rw [← htakes.next_of_nil, ← htakes'.next_of_nil] at ht ⊢
  exact hnext s s' hs ht hsettled hsettled' (congrArg List.length htakes.rest_of_nil)

/-- A token that is not the end of the input is the same with both readers when it is taken. -/
theorem advance_bind {next next' : Token → Parse β} (hr : R r r') (ht : T r.next r'.next)
    (hsettled : r.Settled) (hsettled' : r'.Settled) (hk : r.next.kind ≠ .endOfInput)
    (hnext : ∀ s s', R s s' → s.rest.length < r.rest.length →
      Agree T R W b (next r.next s) (next' r.next s')) :
    Agree T R W b ((advance >>= next) r) ((advance >>= next') r') := by
  rw [bind_apply, bind_apply, advance_of_settled hsettled, advance_of_settled hsettled',
    L.token_eq ht hk]
  apply hnext _ _ (L.drop hr hsettled hsettled' hk)
  exact (takes_drop hsettled (L.kind_ending hr) hk).length_lt

theorem accept_bind {kind : Token.Kind} (hkind : kind ≠ .endOfInput)
    {next next' : Option Token → Parse β} (hr : R r r')
    (hsome : ∀ t s s', R s s' → s.rest.length < r.rest.length →
      Agree T R W r.rest.length (next (some t) s) (next' (some t) s'))
    (hnone : ∀ s s', R s s' → s.rest.length = r.rest.length →
      Agree T R W r.rest.length (next none s) (next' none s')) :
    Agree T R W r.rest.length ((accept [kind] >>= next) r) ((accept [kind] >>= next') r') := by
  rw [accept, bind_assoc, bind_assoc]
  apply L.current_bind hr
  intro s s' hs ht hsettled hsettled' hlen
  rw [L.kind_eq ht]
  split
  · next hk =>
    have hsame : s.next.kind = kind := by simpa using hk
    have hne : s.next.kind ≠ .endOfInput := hsame ▸ hkind
    rw [bind_assoc, bind_assoc]
    apply L.advance_bind hs ht hsettled hsettled' hne
    intro u u' hu hless
    exact hsome s.next u u' hu (hlen ▸ hless)
  · exact hnone s s' hs hlen

/-- Tokens that are refused for their kind are refused for the same reason. -/
theorem reject_unexpected {t t' : Token} (ht : T t t') (hr : R r r') (hle : r.rest.length ≤ b) :
    Agree T R W b (reject (.unexpected t) r) (reject (.unexpected t') r') := by
  by_cases hk : t.kind = .endOfInput
  · have hk' := L.kind_eq ht
    rw [hk] at hk'
    simp only [ParseError.unexpected, hk, hk']
    exact .error (.token ht) hr hle
  · obtain rfl := L.token_eq ht hk
    have hsplit : ParseError.unexpected t' = ⟨(ParseError.unexpected t').problem, t'⟩ := by
      unfold ParseError.unexpected
      split <;> rfl
    rw [hsplit]
    exact .error (.token ht) hr hle

theorem expect_bind {kind : Token.Kind} (hkind : kind ≠ .endOfInput)
    {next next' : Token → Parse β} (hr : R r r')
    (hnext : ∀ t s s', R s s' → s.rest.length < r.rest.length →
      Agree T R W r.rest.length (next t s) (next' t s')) :
    Agree T R W r.rest.length ((expect [kind] >>= next) r) ((expect [kind] >>= next') r') := by
  rw [expect, bind_assoc, bind_assoc]
  apply L.accept_bind hkind hr
  · intro t s s' hs hless
    exact hnext t s s' hs hless
  · intro s s' hs hlen
    dsimp only
    rw [bind_assoc, bind_assoc, ← hlen]
    apply L.current_bind hs
    intro u u' hu ht _ _ hlen'
    exact L.reject_unexpected ht hu hlen'.le

/-! ## Expressions -/

section Rules

variable {rule : Parse Tree} (h : Parallel T R rule)

include h

theorem unlessEnd (problem : ParseProblem) : Parallel T R (unlessEnd problem rule) := by
  intro r r' hr
  apply L.current_bind hr
  intro s s' hs ht _ _ hlen
  rw [L.kind_eq ht]
  split
  · exact .error (.token ht) hs hlen.le
  · exact (h s s' hs).mono hlen.le

theorem chain {operators : Token.Kind → Option Operator} (hend : operators .endOfInput = none)
    (n m : Nat) (left : Tree) (hr : R r r') (hn : r.rest.length < n) (hm : r.rest.length < m) :
    Agree T R Eq r.rest.length (chain operators rule n left r) (chain operators rule m left r') := by
  induction n generalizing m left r r' with
  | zero => omega
  | succ n ih =>
      obtain ⟨m, rfl⟩ : ∃ k, m = k + 1 := ⟨m - 1, by omega⟩
      rw [Parse.chain, Parse.chain]
      apply L.current_bind hr
      intro s s' hs ht hsettled hsettled' hlen
      rw [L.kind_eq ht]
      cases hop : operators s.next.kind with
      | none => exact .ok rfl hs hlen.le
      | some op =>
          have hk : s.next.kind ≠ .endOfInput := by
            intro hk
            rw [hk, hend] at hop
            cases hop
          rw [L.token_eq ht hk]
          apply L.advance_bind hs ht hsettled hsettled' hk
          intro u u' hu hless
          refine ((L.unlessEnd h _).bind hu fun right v v' hv hle => ?_).mono (by omega)
          exact (ih m _ hv (by omega) (by omega)).mono hle

theorem tier {operators : Token.Kind → Option Operator} (hend : operators .endOfInput = none) :
    Parallel T R (tier operators rule) := by
  intro r r' hr
  apply h.bind hr
  intro left s s' hs hle
  obtain ⟨hn, hm⟩ := L.lt_budget hs
  exact (L.chain h hend _ _ left hs hn hm).mono hle

theorem group : Parallel T R (group rule) := by
  intro r r' hr
  apply L.expect_bind (by decide) hr
  intro opening s s' hs hless
  refine (h.bind hs fun inner u u' hu hle => ?_).mono hless.le
  refine Agree.mono ?_ hle
  apply L.accept_bind (by decide) hu
  · intro t v v' hv hless'
    exact .ok rfl hv hless'.le
  · intro v v' hv hlen
    dsimp only
    rw [← hlen]
    apply L.current_bind hv
    intro w w' hw ht _ _ hlen'
    rw [L.kind_eq ht]
    split
    · exact .error (.token ht) hw hlen'.le
    · exact L.reject_unexpected ht hw hlen'.le

theorem primary : Parallel T R (primary rule) := by
  intro r r' hr
  apply L.current_bind hr
  intro s s' hs ht hsettled hsettled' hlen
  have htaken (hk : s.next.kind ≠ .endOfInput) {next : Token → Parse Tree}
      (hnext : ∀ u u', R u u' → u.rest.length < s.rest.length →
        Agree T R Eq r.rest.length (next s.next u) (next s.next u')) :=
    L.advance_bind hs ht hsettled hsettled' hk hnext
  rw [L.kind_eq ht]
  cases hk : s.next.kind with
  | number =>
      rw [L.token_eq ht (by simp [hk])]
      apply htaken (by simp [hk])
      intro u u' hu hless
      cases hvalue : numberOf s.next.value with
      | ok value => exact .ok rfl hu (by omega)
      | error f =>
          refine .error (.other fun e => ?_) hu (by omega)
          rcases numberOf_cases hvalue with ⟨text, rfl⟩ | rfl | rfl <;> simp
  | name =>
      rw [L.token_eq ht (by simp [hk])]
      apply htaken (by simp [hk])
      intro u u' hu hless
      exact .ok rfl hu (by omega)
  | openParen => exact (L.group h s s' hs).mono hlen.le
  | _ => exact L.reject_unexpected ht hs hlen.le

end Rules

theorem bangs (n m : Nat) (operand : Tree) (hr : R r r') (hn : r.rest.length < n)
    (hm : r.rest.length < m) :
    Agree T R Eq r.rest.length (bangs n operand r) (bangs m operand r') := by
  induction n generalizing m operand r r' with
  | zero => omega
  | succ n ih =>
      obtain ⟨m, rfl⟩ : ∃ k, m = k + 1 := ⟨m - 1, by omega⟩
      rw [Parse.bangs, Parse.bangs]
      apply L.accept_bind (by decide) hr
      · intro bang s s' hs hless
        exact (ih m _ hs (by omega) (by omega)).mono hless.le
      · intro s s' hs hlen
        exact .ok rfl hs hlen.le

theorem suffixed {rule : Parse Tree} (h : Parallel T R rule) : Parallel T R (suffixed rule) := by
  intro r r' hr
  apply (L.primary h).bind hr
  intro operand s s' hs hle
  obtain ⟨hn, hm⟩ := L.lt_budget hs
  exact (L.bangs _ _ operand hs hn hm).mono hle

theorem within (n : Nat) : Parallel T R (within n) := by
  induction n with
  | zero =>
      intro r r' hr
      have hdepth : FailsLike T .tooDeep .tooDeep := .other fun e he => by cases he
      exact .error hdepth hr (Nat.le_refl _)
  | succ n ih =>
      have hfactor : Parallel T R (factor (Parse.within n)) := L.tier (L.suffixed ih) rfl
      have hterm : Parallel T R (term (Parse.within n)) := L.tier hfactor rfl
      exact L.tier hterm rfl

/-! ## Statements and programs -/

theorem statement : Parallel T R statement := by
  have hexpression : Parallel T R expression := L.within _
  have hbare : Parallel T R bare := hexpression.map _
  intro r r' hr
  apply L.current_bind hr
  intro s s' hs ht hsettled hsettled' hlen
  rw [L.kind_eq ht, ← hlen]
  cases hk : s.next.kind with
  | print =>
    apply L.expect_bind (by decide) hs
    intro keyword u u' hu hless
    exact ((L.unlessEnd hexpression _).map _ u u' hu).mono hless.le
  | name =>
    obtain ⟨us, hrest⟩ := Reader.rest_eq_cons (L.kind_ending hs) (by simp [hk])
    have hlooked : 1 ≤ s.rest.length := by simp [hrest]
    apply (L.peek 1 hs hlooked).bind
    intro following following' u u' _ _ hfollowing hu hle
    rw [L.kind_eq hfollowing]
    split
    · refine Agree.mono ?_ hle
      apply L.expect_bind (by decide) hu
      intro target v v' hv hless
      refine Agree.mono ?_ hless.le
      apply L.expect_bind (by decide) hv
      intro sign w w' hw hless'
      exact ((L.unlessEnd hexpression _).map _ w w' hw).mono hless'.le
    · exact (hbare u u' hu).mono hle
  | _ => exact hbare s s' hs

theorem terminators (n m : Nat) (hr : R r r') (hn : r.rest.length < n) (hm : r.rest.length < m) :
    Agree T R Eq r.rest.length (terminators n r) (terminators m r') := by
  induction n generalizing m r r' with
  | zero => omega
  | succ n ih =>
      obtain ⟨m, rfl⟩ : ∃ k, m = k + 1 := ⟨m - 1, by omega⟩
      rw [Parse.terminators, Parse.terminators]
      apply L.accept_bind (by decide) hr
      · intro t s s' hs hless
        exact (ih m hs (by omega) (by omega)).mono hless.le
      · intro s s' hs hlen
        exact .ok rfl hs hlen.le

/-- After a statement either a terminator is taken or the round is the last one. -/
theorem further {n m : Nat} (first : Tree) (hr : R r r')
    (hstatements : ∀ s s', R s s' → s.rest.length < r.rest.length →
      Agree T R Eq s.rest.length (statements n s) (statements m s')) :
    Agree T R Eq r.rest.length
      ((current >>= fun following => do
        if following.kind ≠ .endOfInput then
          let _ ← expect [.terminator]
        return first :: (← statements n)) r)
      ((current >>= fun following => do
        if following.kind ≠ .endOfInput then
          let _ ← expect [.terminator]
        return first :: (← statements m)) r') := by
  apply L.current_bind hr
  intro s s' hs ht hsettled hsettled' hlen
  rw [L.kind_eq ht, ← hlen]
  split
  · apply L.expect_bind (by decide) hs
    intro t u u' hu hless
    apply ((hstatements u u' hu (by omega)).mono hless.le).bind
    rintro others _ v v' - - rfl hv hle
    exact .ok rfl hv hle
  · next hk =>
    have hend : s.next.kind = .endOfInput := not_not.mp hk
    have hlast : Agree T R Eq s.rest.length (statements n s) (statements m s') := by
      rw [statements_at_end n hsettled hend,
        statements_at_end m hsettled' ((L.kind_eq ht).trans hend)]
      exact .ok rfl hs (Nat.le_refl _)
    apply hlast.bind
    rintro others _ v v' - - rfl hv hle
    exact .ok rfl hv hle

theorem statements (n m : Nat) (hr : R r r') (hn : r.rest.length < n) (hm : r.rest.length < m) :
    Agree T R Eq r.rest.length (statements n r) (statements m r') := by
  induction n generalizing m r r' with
  | zero => omega
  | succ n ih =>
      obtain ⟨m, rfl⟩ : ∃ k, m = k + 1 := ⟨m - 1, by omega⟩
      rw [Parse.statements, Parse.statements]
      obtain ⟨hbudget, hbudget'⟩ := L.lt_budget hr
      apply (L.terminators _ _ hr hbudget hbudget').bind
      rintro _ _ s s' - - - hs hle
      refine Agree.mono ?_ hle
      apply L.current_bind hs
      intro u u' hu ht _ _ hlen
      rw [L.kind_eq ht]
      split
      · exact .ok rfl hu hlen.le
      · rw [← hlen]
        apply (L.statement.ifTooDeep hu ht).bind
        rintro first _ v v' - - rfl hv hle'
        have hrecord := L.record (.parsed first.kind first.pos) hv
        refine (L.further first hrecord fun w w' hw hless => ?_).mono hle'
        have hless' : w.rest.length < v.rest.length := hless
        exact ih m hw (by omega) (by omega)

/-- Readers that go in lockstep end alike after a whole program. -/
theorem program : Parallel T R program := by
  intro r r' hr
  obtain ⟨hn, hm⟩ := L.lt_budget hr
  exact L.statements _ _ hr hn hm

end Lockstep

end Reckoner.Parse
