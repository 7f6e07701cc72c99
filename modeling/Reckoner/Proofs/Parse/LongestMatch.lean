import Reckoner.Proofs.Grammar.Extension
import Reckoner.Proofs.Parse.Expressions
import Reckoner.Proofs.Parse.Refinement
import Reckoner.Proofs.Tree.Nesting

/-!
# Rules take the longest match

Each rule for expressions derives what it takes, with the tree that it returns, and it takes as much
as it can: the token where it stops extends no operand on its tier, while a longer match would have
to go on with one that does. A rule that raises an error stands at a token with which nothing goes
on that the rule derives, and has not taken it.
-/

namespace Reckoner

open Grammar

namespace Grammar

open Computability

/-! ## Derivations with trees -/

/-- The form of the expressions in parentheses. -/
def Form.group : Form :=
  .seq (.token .openParen) (.seq (.rule .expression) (.token .closeParen))

/-- What the tiers derive, from expressions to groups. -/
def tierForm : Nat → Form
  | 0 => .rule .expression
  | 1 => .rule .term
  | 2 => .rule .factor
  | 3 => .rule .suffixed
  | 4 => .rule .primary
  | _ => .group

/-- Derivations of tokens on a tier, with their trees. Operators group to the left. -/
inductive Derivation : Nat → List Token → Tree → Prop
  | number {t : Token} {x : Float} (hk : t.kind = .number) (hx : Parse.numberOf t.value = .ok x) :
      Derivation 4 [t] (.number t.pos x)
  | name {t : Token} (hk : t.kind = .name) : Derivation 4 [t] (.name t.pos t.value.display)
  | group {opening closing : Token} {xs : List Token} {inner : Tree}
      (hopening : opening.kind = .openParen) (h : Derivation 0 xs inner)
      (hclosing : closing.kind = .closeParen) :
      Derivation 5 (opening :: (xs ++ [closing])) (.group opening.pos inner)
  | factorial {bang : Token} {xs : List Token} {t : Tree} (h : Derivation 3 xs t)
      (hk : bang.kind = .bang) : Derivation 3 (xs ++ [bang]) (.factorial bang.pos t)
  | binary {sign : Token} {op : Operator} {xs ys : List Token} {left right : Tree}
      (hop : operator? sign.kind = some op) (hleft : Derivation op.rank xs left)
      (hright : Derivation (op.rank + 1) ys right) :
      Derivation op.rank (xs ++ sign :: ys) (.binary sign.pos op left right)
  | loosen {k : Nat} {xs : List Token} {t : Tree} (h : Derivation (k + 1) xs t) :
      Derivation k xs t

theorem Derivation.ne_nil {k : Nat} {xs : List Token} {t : Tree} (h : Derivation k xs t) :
    xs ≠ [] := by
  induction h with
  | loosen _ ih => exact ih
  | _ => simp

theorem derived_mul_operator_le {name operand : Nonterminal} {operators : Form} {kind : Token.Kind}
    (hform : name.form = .joined operand operators)
    (hkind : single kind ≤ operators.language derived) :
    derived name * (single kind * derived operand) ≤ derived name := by
  set round := operators.language derived * derived operand with hround
  have hform' : name.form.language derived = derived operand * round∗ := by
    rw [hform]
    rfl
  calc derived name * (single kind * derived operand)
      ≤ derived operand * round∗ * round :=
        mul_le_mul' (hform' ▸ derived_le name) (mul_le_mul_left hkind _)
    _ = derived operand * (round∗ * round) := mul_assoc _ _ _
    _ ≤ derived operand * round∗ := mul_le_mul_right kstar_mul_le_kstar _
    _ ≤ derived name := hform' ▸ closed_derived name

theorem derived_mul_bang_le : derived .suffixed * single .bang ≤ derived .suffixed := by
  calc derived .suffixed * single .bang
      ≤ derived .primary * (single .bang)∗ * single .bang :=
        mul_le_mul_left (derived_le .suffixed) _
    _ = derived .primary * ((single .bang)∗ * single .bang) := mul_assoc _ _ _
    _ ≤ derived .primary * (single .bang)∗ := mul_le_mul_right kstar_mul_le_kstar _
    _ ≤ derived .suffixed := closed_derived .suffixed

theorem append_operator_mem {name operand : Nonterminal} {operators : Form} {kind : Token.Kind}
    (hform : name.form = .joined operand operators)
    (hkind : single kind ≤ operators.language derived) {v w : List Token.Kind}
    (hv : v ∈ derived name) (hw : w ∈ derived operand) : v ++ kind :: w ∈ derived name := by
  refine mem_of_le (derived_mul_operator_le hform hkind) ?_
  exact Language.append_mem_mul hv (Language.append_mem_mul (mem_single.mpr rfl) hw)

theorem Derives.binary {op : Operator} {v w : List Token.Kind}
    (hv : Derives (tierForm op.rank) v) (hw : Derives (tierForm (op.rank + 1)) w) :
    Derives (tierForm op.rank) (v ++ op.token :: w) := by
  match op, hv, hw with
  | .plus, hv, hw => exact append_operator_mem rfl (le_add_of_nonneg_right zero_le) hv hw
  | .minus, hv, hw => exact append_operator_mem rfl (le_add_of_nonneg_left zero_le) hv hw
  | .times, hv, hw => exact append_operator_mem rfl (le_add_of_nonneg_right zero_le) hv hw
  | .over, hv, hw => exact append_operator_mem rfl (le_add_of_nonneg_left zero_le) hv hw
  | .power, hv, hw => exact append_operator_mem rfl le_rfl hv hw

theorem Derives.loosen {k : Nat} {w : List Token.Kind} (h : Derives (tierForm (k + 1)) w) :
    Derives (tierForm k) w := by
  have halone {f g : Form} (hf : Derives f w) : Derives (.seq f (.many g)) w :=
    List.append_nil w ▸ .seq hf .none
  match k with
  | 0 => exact .rule (halone h)
  | 1 => exact .rule (halone h)
  | 2 => exact .rule (halone h)
  | 3 => exact .rule (halone h)
  | 4 => exact .rule (.right (.right h))
  | _ + 5 => exact h

/-- Tokens with a derivation are of kinds that the grammar derives. -/
theorem Derivation.derives {k : Nat} {xs : List Token} {t : Tree} (h : Derivation k xs t) :
    Derives (tierForm k) (xs.map Token.kind) := by
  induction h with
  | number hk _ =>
      rw [List.map_singleton, hk]
      exact .rule (.left (.token _))
  | name hk =>
      rw [List.map_singleton, hk]
      exact .rule (.right (.left (.token _)))
  | group hopening _ hclosing ih =>
      rw [List.map_cons, List.map_append, List.map_singleton, hopening, hclosing]
      exact .seq (.token _) (.seq ih (.token _))
  | factorial _ hk ih =>
      rw [List.map_append, List.map_singleton, hk]
      exact mem_of_le derived_mul_bang_le (Language.append_mem_mul ih (mem_single.mpr rfl))
  | binary hop _ _ ihl ihr =>
      rw [List.map_append, List.map_cons, Operator.token_eq_of_operator? hop]
      exact ihl.binary ihr
  | loosen _ ih => exact ih.loosen

theorem Derives.mem_crossing {k : Nat} {w : List Token.Kind} (h : Derives (tierForm k) w) :
    w ∈ crossing := by
  have hrule {name : Nonterminal} (hname : recognized name = crossing)
      (h : Derives (.rule name) w) : w ∈ crossing :=
    hname ▸ h.mem_language closed_recognized
  match k with
  | 0 => exact hrule rfl h
  | 1 => exact hrule rfl h
  | 2 => exact hrule rfl h
  | 3 => exact hrule rfl h
  | 4 => exact hrule rfl h
  | _ + 5 =>
      have hprimary : Derives (.rule .primary) w := .rule (.right (.right h))
      exact hrule rfl hprimary

/-- Where a sequence of a tier goes on after an operand, it goes on with a kind of this tier. -/
theorem Derives.exists_rank {k : Nat} {v w : List Token.Kind} {kind : Token.Kind}
    (h : Derives (tierForm k) (v ++ kind :: w)) (hv : v ∈ crossing) :
    ∃ b, kind.rank? = some b ∧ min k 4 ≤ b := by
  match k with
  | 0 => exact exists_rank_of_derives rfl hv h
  | 1 => exact exists_rank_of_derives rfl hv h
  | 2 => exact exists_rank_of_derives rfl hv h
  | 3 => exact exists_rank_of_derives rfl hv h
  | 4 => exact exists_rank_of_derives rfl hv h
  | k + 5 =>
      have hprimary : Derives (.rule .primary) (v ++ kind :: w) := .rule (.right (.right h))
      obtain ⟨b, hb, hle⟩ := exists_rank_of_derives rfl hv hprimary
      exact ⟨b, hb, (Nat.min_le_right _ _).trans hle⟩

end Grammar

namespace Parse

/-! ## What rules derive -/

/-- Whether a rule returns trees of derivations of the tokens that it takes. -/
def Builds (k : Nat) (rule : Parse Tree) : Prop :=
  ∀ r : Reader, r.ending.kind = .endOfInput →
    Ensures rule r (fun t r' => ∃ xs, r.Takes xs r' ∧ Derivation k xs t) fun _ _ => True

section Builds

variable {r start : Reader} {xs : List Token} {t : Tree} {k : Nat} {rule : Parse Tree}

theorem Builds.loosen (h : Builds (k + 1) rule) : Builds k rule := by
  intro r hend
  refine (h r hend).imp ?_ fun _ _ h => h
  rintro t r' ⟨xs, htakes, hxs⟩
  exact ⟨xs, htakes, hxs.loosen⟩

theorem builds_bangs (n : Nat) (hend : start.ending.kind = .endOfInput)
    (htakes : start.Takes xs r) (h : Derivation 3 xs t) :
    Ensures (bangs n t) r (fun t' r' => ∃ ys, start.Takes ys r' ∧ Derivation 3 ys t')
      fun _ _ => True := by
  induction n generalizing r xs t with
  | zero => exact ⟨xs, htakes, h⟩
  | succ n ih =>
      rw [bangs]
      refine Ensures.bind (ensures_accept (htakes.kind_ending hend) (by decide) ?_ ?_ ?_)
      · intro r' hk htakes'
        exact ih (htakes.trans htakes') (h.factorial hk)
      · intro r' _ htakes' _
        exact ⟨xs, by simpa using htakes.trans htakes', h⟩
      · intro _ _ _ _
        trivial

theorem Builds.unlessEnd (h : Builds k rule) (problem : ParseProblem) :
    Builds k (unlessEnd problem rule) := by
  intro r hend
  refine Ensures.bind (ensures_current ?_ fun _ _ _ _ => trivial)
  intro r' htakes _
  split
  · exact ensures_reject trivial
  · refine (h r' (htakes.kind_ending hend)).imp ?_ fun _ _ h => h
    rintro t r'' ⟨xs, htakes', hxs⟩
    exact ⟨xs, htakes.trans htakes', hxs⟩

theorem builds_chain {operators : Token.Kind → Option Operator} (htier : IsTier k operators)
    (hrule : Builds (k + 1) rule) (n : Nat) (hend : start.ending.kind = .endOfInput)
    (htakes : start.Takes xs r) (h : Derivation k xs t) :
    Ensures (chain operators rule n t) r (fun t' r' => ∃ ys, start.Takes ys r' ∧ Derivation k ys t')
      fun _ _ => True := by
  induction n generalizing r xs t with
  | zero => exact ⟨xs, htakes, h⟩
  | succ n ih =>
      rw [chain]
      refine Ensures.bind (ensures_current ?_ fun _ _ _ _ => trivial)
      intro s hlook hsettled
      have htakes' : start.Takes xs s := by simpa using htakes.trans hlook
      split
      · exact ⟨xs, htakes', h⟩
      · next op hop =>
        obtain ⟨hop, rfl⟩ := (htier _ op).mp hop
        have hnext := hlook.next_of_nil
        have hne : s.next.kind ≠ .endOfInput := by
          intro hkind
          simp [← hnext, hkind, operator?] at hop
        refine Ensures.bind (ensures_advance hsettled (htakes'.kind_ending hend) hne ?_)
        intro s' hsign
        have hend' := (htakes'.trans hsign).kind_ending hend
        refine Ensures.bind ((hrule.unlessEnd _ s' hend').imp ?_ fun _ _ h => h)
        rintro right s'' ⟨ys, hright, hys⟩
        have hbinary := Derivation.binary hop h hys
        rw [← hnext] at hbinary ⊢
        refine ih ?_ hbinary
        simpa using (htakes'.trans hsign).trans hright

theorem Builds.tier {operators : Token.Kind → Option Operator} (h : Builds (k + 1) rule)
    (htier : IsTier k operators) : Builds k (tier operators rule) := by
  intro r hend
  refine Ensures.bind ((h r hend).imp ?_ fun _ _ h => h)
  rintro left r' ⟨xs, htakes, hxs⟩
  exact Ensures.bind (ensures_fuel fun n _ => builds_chain htier h n hend htakes hxs.loosen)

theorem Builds.group (h : Builds 0 rule) : Builds 5 (group rule) := by
  intro r hend
  refine Ensures.bind (ensures_expect hend (by decide) ?_ (fun _ _ _ _ => trivial)
    fun _ _ _ _ => trivial)
  intro middle hopening htakes
  refine Ensures.bind ((h middle (htakes.kind_ending hend)).imp ?_ fun _ _ h => h)
  rintro inner r' ⟨xs, hinner, hxs⟩
  have hend' := (htakes.trans hinner).kind_ending hend
  refine Ensures.bind (ensures_accept hend' (by decide) ?_ ?_ fun _ _ _ _ => trivial)
  · intro r'' hclosing hclose
    exact ⟨_, htakes.trans (hinner.trans hclose), .group hopening hxs hclosing⟩
  · intro r'' _ _ hsettled
    refine Ensures.bind (ensures_current_of_settled hsettled ?_)
    split <;> exact ensures_reject trivial

theorem Builds.primary (h : Builds 0 rule) : Builds 4 (primary rule) := by
  intro r hend
  refine Ensures.bind (ensures_current ?_ fun _ _ _ _ => trivial)
  intro middle htakes hsettled
  have hnext := htakes.next_of_nil
  have hend' := htakes.kind_ending hend
  split
  · next hk =>
    refine Ensures.bind (ensures_advance hsettled hend' (by simp [hnext, hk]) ?_)
    intro r' htakes'
    rw [hnext] at htakes'
    split
    · next x hx => exact ⟨_, htakes.trans htakes', .number hk hx⟩
    · trivial
  · next hk =>
    refine Ensures.bind (ensures_advance hsettled hend' (by simp [hnext, hk]) ?_)
    intro r' htakes'
    rw [hnext] at htakes'
    exact ⟨_, htakes.trans htakes', .name hk⟩
  · refine (h.group.loosen middle hend').imp ?_ fun _ _ h => h
    rintro t r' ⟨xs, htakes', hxs⟩
    exact ⟨xs, htakes.trans htakes', hxs⟩
  · exact ensures_reject trivial

theorem Builds.suffixed (h : Builds 0 rule) : Builds 3 (suffixed rule) := by
  intro r hend
  refine Ensures.bind ((h.primary r hend).imp ?_ fun _ _ h => h)
  rintro t r' ⟨xs, htakes, hxs⟩
  exact Ensures.bind (ensures_fuel fun n _ => builds_bangs n hend htakes hxs.loosen)

theorem Builds.factor (h : Builds 0 rule) : Builds 2 (factor rule) :=
  h.suffixed.tier isTier_exponential

theorem Builds.term (h : Builds 0 rule) : Builds 1 (term rule) :=
  h.factor.tier isTier_multiplicative

theorem Builds.sum (h : Builds 0 rule) : Builds 0 (sum rule) :=
  h.term.tier isTier_additive

theorem builds_within (n : Nat) : Builds 0 (within n) := by
  induction n with
  | zero => exact fun _ _ => trivial
  | succ n ih => exact ih.sum

end Builds

/-! ## How rules end -/

/-- Whether an error was raised at a token that has not been taken, and nothing that the form
derives goes on with it. -/
def Rejects (form : Form) (r : Reader) (f : ParseFailure) (r' : Reader) : Prop :=
  ∃ e xs, f = .parse e ∧ r.Takes xs r' ∧ r'.next = e.token ∧
    ∀ zs : List Token, ¬ Derives form ((xs ++ e.token :: zs).map Token.kind)

theorem length_opened_le_peak {s m : State} {xs : List Token} (h : s.run xs = some m)
    (ys : List Token) :
    m.opened.length ≤ peak s.opened.length (xs ++ ys) := by
  rw [length_opened_run h, peak_append]
  exact (le_peak _ ys).trans (Nat.le_max_right _ _)

/-- With no error in the text, no number that is unusable and few enough parentheses, the only way
to fail is to refuse a token. -/
theorem Fails.rejects {n k : Nat} {after : Token} {r r' : Reader} {f : ParseFailure}
    (h : Fails n (.operand after []) r f r') (herror : r.error? = none)
    (hnesting : nesting r.rest ≤ n)
    (hvalues : ∀ t ∈ r.rest, t.kind = .number → ∃ x, numberOf t.value = .ok x) :
    Rejects (tierForm k) r f r' := by
  have hshallow {xs ys : List Token} {m : State} (hrest : r.rest = xs ++ ys)
      (hrun : State.run (.operand after []) xs = some m) : m.opened.length ≤ n := by
    have hle := length_opened_le_peak hrun ys
    rw [← hrest] at hle
    exact hle.trans hnesting
  cases h with
  | @refused xs m _ htakes hrun _ hrefuses =>
      refine ⟨_, xs, rfl, htakes, (State.complaint_token m r'.next).symm, fun zs hderives => ?_⟩
      rw [State.complaint_token] at hderives
      have hcross := hderives.mem_crossing _ rfl after []
      obtain ⟨m', hm', hrest⟩ := State.exists_run_of_append hcross
      obtain rfl : m = m' := Option.some.inj (hrun.symm.trans hm')
      rw [State.run_cons, hrefuses.1] at hrest
      cases hrest
  | broken htakes _ hbreaks =>
      have hsome := hbreaks.error_eq
      rw [htakes.error_eq, herror] at hsome
      cases hsome
  | deep htakes hrun hdeep => exact absurd (hshallow htakes.rest_eq hrun) (Nat.not_le.mpr hdeep)
  | buried htakes hrun _ hstart hstate hdeep =>
      have hway := (htakes.trans hstart).rest_eq
      exact absurd (hshallow hway (State.run_trans hrun hstate)) (Nat.not_le.mpr hdeep)
  | unusable hmem hkind hvalue =>
      obtain ⟨x, hx⟩ := hvalues _ hmem hkind
      rw [hx] at hvalue
      cases hvalue

/-- The rules for expressions, from the loosest tier to groups. -/
inductive Rule
  | expression
  | term
  | factor
  | suffixed
  | primary
  | group

namespace Rule

def level : Rule → Nat
  | .expression => 0
  | .term => 1
  | .factor => 2
  | .suffixed => 3
  | .primary => 4
  | .group => 5

/-- What a rule derives. -/
def form (rule : Rule) : Form :=
  tierForm rule.level

/-- What a rule does where so many parentheses may still be opened. -/
def parse (n : Nat) : Rule → Parse Tree
  | .expression => within (n + 1)
  | .term => Parse.term (within n)
  | .factor => Parse.factor (within n)
  | .suffixed => Parse.suffixed (within n)
  | .primary => Parse.primary (within n)
  | .group => Parse.group (within n)

variable {n : Nat} {r : Reader}

theorem builds (rule : Rule) (n : Nat) : Builds rule.level (rule.parse n) := by
  have hnested := builds_within n
  cases rule with
  | expression => exact hnested.sum
  | term => exact hnested.term
  | factor => exact hnested.factor
  | suffixed => exact hnested.suffixed
  | primary => exact hnested.primary
  | group => exact hnested.group

theorem rank?_lt_four {kind : Token.Kind} {b : Nat} (h : kind.rank? = some b) : b < 4 := by
  unfold Token.Kind.rank? at h
  split at h
  · cases h
    decide
  · obtain ⟨op, -, rfl⟩ := Option.map_eq_some_iff.mp h
    exact op.rank_lt.trans (by decide)

theorem not_derives_group {t : Token} (hk : t.kind ≠ .openParen) (zs : List Token) :
    ¬ Derives .group ((t :: zs).map Token.kind) := by
  intro h
  obtain ⟨u, hu, v, -, huv⟩ := Language.mem_mul.mp (h.mem_language closed_derived)
  rw [mem_single.mp hu] at huv
  exact hk (List.cons.inj huv).1.symm

/-- A rule stops at a token that does not extend an operand of its tier, or it refuses a token. -/
theorem ends (rule : Rule) (hend : r.ending.kind = .endOfInput) (herror : r.error? = none)
    (hnesting : nesting r.rest ≤ n) :
    Ensures (rule.parse n) r
      (fun _ r' => ∀ b, r'.next.kind.rank? = some b → b < min rule.level 4)
      (fun f r' => (∀ t ∈ r.rest, t.kind = .number → ∃ x, numberOf t.value = .ok x) →
        Rejects rule.form r f r') := by
  -- Any parenthesis will do as the token that the rule starts after.
  let after := Token.ofValue .openParen .absent .unknown
  have hcomplaint : (State.operand after []).complaint r.next = .unexpected r.next :=
    State.complaint_opening r.next rfl
  have hnested (pos : Position) : ReadsOperand n 0 [pos] (within n) :=
    readsOperand_within n (Nat.add_comm 1 n)
  have hsuffixed : ReadsOperand n 3 [] (Parse.suffixed (within n)) := readsOperand_suffixed hnested
  have hfactor : ReadsOperand n 2 [] (Parse.factor (within n)) :=
    readsOperand_tier isTier_exponential (by decide) hsuffixed
  have hterm : ReadsOperand n 1 [] (Parse.term (within n)) :=
    readsOperand_tier isTier_multiplicative (by decide) hfactor
  have hoperand {k : Nat} {step : Parse Tree} (hk : k ≤ 4) (h : ReadsOperand n k [] step) :
      Ensures step r (fun _ r' => ∀ b, r'.next.kind.rank? = some b → b < min k 4)
        (fun f r' => (∀ t ∈ r.rest, t.kind = .number → ∃ x, numberOf t.value = .ok x) →
          Rejects (tierForm k) r f r') := by
    refine (h after r hend hcomplaint).imp ?_ fun f r' hfails => hfails.rejects herror hnesting
    rintro t r' ⟨xs, -, hstops⟩ b hb
    rw [Nat.min_eq_left hk]
    exact hstops.2 b hb
  cases rule with
  | expression => exact hoperand (by decide) (readsOperand_within (n + 1) (Nat.zero_add _))
  | term => exact hoperand (by decide) hterm
  | factor => exact hoperand (by decide) hfactor
  | suffixed => exact hoperand (by decide) hsuffixed
  | primary =>
      refine (ensures_primary hnested hend hcomplaint).imp ?_
        fun f r' hfails => hfails.rejects herror hnesting
      intro t r' _ b hb
      exact rank?_lt_four hb
  | group =>
      by_cases hk : r.next.kind = .openParen
      · have hgroup : Ensures (Parse.group (within n)) r _ (Fails n (.operand after []) r) :=
          ensures_group hnested hend hk
        refine hgroup.imp ?_ fun f r' hfails => hfails.rejects herror hnesting
        intro t r' _ b hb
        exact rank?_lt_four hb
      · refine Ensures.bind (ensures_expect hend (by decide) ?_ ?_ ?_)
        · intro r' hopening
          exact absurd hopening hk
        · intro r' _ htakes _ _
          refine ⟨_, [], rfl, htakes, ?_, fun zs => ?_⟩
          · rw [ParseError.unexpected_token, htakes.next_of_nil]
          · rw [ParseError.unexpected_token]
            exact not_derives_group hk zs
        · intro e r' hbreaks _
          have hsome := hbreaks.error_eq
          rw [herror] at hsome
          cases hsome

/-- What is derivable and longer than what a rule takes would go on with a token of its tier. -/
theorem not_derives_longer (rule : Rule) {r' : Reader} {xs ys : List Token} {t : Tree}
    (htakes : r.Takes xs r') (hxs : Derivation rule.level xs t)
    (hstops : ∀ b, r'.next.kind.rank? = some b → b < min rule.level 4) (hys : ys <+: r.rest)
    (hlonger : xs.length < ys.length) : ¬ Derives rule.form (ys.map Token.kind) := by
  intro hderives
  obtain ⟨more, hmore⟩ := hys
  rw [htakes.rest_eq] at hmore
  obtain ⟨us, rfl, hrest⟩ : ∃ us, ys = xs ++ us ∧ r'.rest = us ++ more := by
    rcases List.append_eq_append_iff.mp hmore with ⟨us, rfl, -⟩ | ⟨us, rfl, hrest⟩
    · rw [List.length_append] at hlonger
      omega
    · exact ⟨us, rfl, hrest⟩
  obtain ⟨u, vs, rfl⟩ : ∃ u vs, us = u :: vs := by
    apply List.exists_cons_of_ne_nil
    rintro rfl
    rw [List.append_nil] at hlonger
    exact Nat.lt_irrefl _ hlonger
  have hnext : r'.next = u := Reader.next_of_cons hrest
  rw [List.map_append, List.map_cons] at hderives
  obtain ⟨b, hb, hle⟩ := hderives.exists_rank hxs.derives.mem_crossing
  rw [hnext] at hstops
  exact absurd (hstops b hb) (Nat.not_lt.mpr hle)

end Rule

/-- Each rule for expressions takes a longest match, wherever it starts in a list of tokens with few
enough parentheses. If it returns a tree, the tree is a derivation of the tokens taken, there is at
least one of them, and no longer part of the remaining tokens is derivable. If no part is derivable,
it raises an error, and every error is raised at a token that has not been taken, with which
nothing derivable goes on. -/
theorem rule_takes_longest_match (rule : Rule) {n k : Nat} {ts : List Token} {r : Reader}
    (hr : r.At ts ⟨k, none⟩) (hnesting : nesting (ts.drop k) ≤ n) :
    (∀ t r', rule.parse n r = (.ok t, r') →
      ∃ xs, r.Takes xs r' ∧ xs ≠ [] ∧ Derivation rule.level xs t ∧
        Derives rule.form (xs.map Token.kind) ∧
        ∀ ys, ys <+: ts.drop k → xs.length < ys.length →
          ¬ Derives rule.form (ys.map Token.kind)) ∧
    ((∀ t ∈ ts.drop k, t.kind = .number → ∃ x, numberOf t.value = .ok x) →
      ((∀ ys, ys <+: ts.drop k → ¬ Derives rule.form (ys.map Token.kind)) →
        ∃ e r', rule.parse n r = (.error (.parse e), r')) ∧
      ∀ f r', rule.parse n r = (.error f, r') →
        ∃ e xs, f = .parse e ∧ r.Takes xs r' ∧ r'.next = e.token ∧
          ∀ zs : List Token, ¬ Derives rule.form ((xs ++ e.token :: zs).map Token.kind)) := by
  have hrest := hr.rest_eq
  have hend : r.ending.kind = .endOfInput := by
    rw [hr.ending_eq]
    rfl
  rw [← hrest] at hnesting ⊢
  have hends := rule.ends hend hr.error?_eq hnesting
  have hbuilds := rule.builds n r hend
  refine ⟨?_, fun hvalues => ⟨?_, ?_⟩⟩
  · intro t r' hparse
    obtain ⟨xs, htakes, hxs⟩ := hbuilds.of_ok hparse
    refine ⟨xs, htakes, hxs.ne_nil, hxs, hxs.derives, fun ys hys hlonger => ?_⟩
    exact rule.not_derives_longer htakes hxs (hends.of_ok hparse) hys hlonger
  · intro hnone
    rcases hparse : rule.parse n r with ⟨f | t, r'⟩
    · obtain ⟨e, xs, rfl, -⟩ := hends.of_error hparse hvalues
      exact ⟨e, r', rfl⟩
    · obtain ⟨xs, htakes, hxs⟩ := hbuilds.of_ok hparse
      exact absurd hxs.derives (hnone xs ⟨r'.rest, htakes.rest_eq.symm⟩)
  · intro f r' hparse
    exact hends.of_error hparse hvalues

/-- The rule for factorial marks on `x ! +`. -/
theorem rule_takes_longest_match_marked :
    let ts : List Token := [⟨.name, .text "x", ⟨1, 1⟩, 1⟩, ⟨.bang, .text "!", ⟨1, 2⟩, 1⟩,
      ⟨.plus, .text "+", ⟨1, 3⟩, 1⟩]
    nesting (ts.drop 0) ≤ 0 ∧ ∃ t r', Rule.suffixed.parse 0 (Reader.ofTokens ts) = (.ok t, r') ∧
      ∃ xs, (Reader.ofTokens ts).Takes xs r' ∧ xs ≠ [] ∧ Derivation 3 xs t := by
  intro ts
  have hnesting : nesting (ts.drop 0) ≤ 0 := by decide
  have hparse : Rule.suffixed.parse 0 (Reader.ofTokens ts) =
      (.ok (.factorial ⟨1, 2⟩ (.name ⟨1, 1⟩ "x")), _) := rfl
  obtain ⟨xs, htakes, hne, hxs, -⟩ := (rule_takes_longest_match .suffixed
    (Reader.at_ofSupply (.listed ts)) hnesting).1 _ _ hparse
  exact ⟨hnesting, _, _, hparse, xs, htakes, hne, hxs⟩

end Parse

end Reckoner
