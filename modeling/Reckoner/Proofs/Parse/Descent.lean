import Reckoner.Proofs.Parse.Programs
import Reckoner.Proofs.Tree.Nesting

/-!
# How deep rules go

A rule that may open some more parentheses never takes tokens that nest more deeply, whether it
gives a tree or fails. If it fails for depth, it has just opened one parenthesis too many. The rules
are put together from steps of which each leaves as many parentheses open as it has found, except
for the two of a group. From this it is known of a whole program how deep the tokens nest that were
taken, and in which statement the limit was passed.
-/

namespace Reckoner

namespace Grammar

theorem openAfter_le (count : Nat) (t : Token) : openAfter count t ≤ count + 1 := by
  unfold openAfter
  split <;> omega

theorem peak_le (count : Nat) (xs : List Token) : peak count xs ≤ count + xs.length := by
  induction xs generalizing count with
  | nil => exact Nat.le_refl _
  | cons t xs ih =>
      have hstep := openAfter_le count t
      have hrest := ih (openAfter count t)
      simp only [peak, List.length_cons]
      omega

theorem nesting_mono {xs ys : List Token} (h : xs <+: ys) : nesting xs ≤ nesting ys := by
  obtain ⟨more, rfl⟩ := h
  rw [nesting, nesting, peak_append]
  exact Nat.le_max_left _ _

theorem nesting_append_le (xs ys : List Token) : nesting (xs ++ ys) ≤ nesting xs + ys.length := by
  have hcount := foldl_openAfter_le_peak 0 xs
  have hmore := peak_le (xs.foldl openAfter 0) ys
  rw [nesting, nesting, peak_append]
  omega

/-- Whether the tokens open less than so many parentheses at once, on top of those that are open
before them, and do not end a statement. -/
structure Contained (n : Nat) (xs : List Token) : Prop where
  peak_lt : ∀ count, peak count xs < count + n
  continues : ∀ x ∈ xs, x.kind ≠ .terminator

/-- Whether as many parentheses are open after the tokens as before them. -/
def Level (xs : List Token) : Prop :=
  ∀ count, xs.foldl openAfter count = count

section Tokens

variable {n : Nat} {t : Token} {xs ys : List Token}

theorem Contained.pos (h : Contained n xs) : 0 < n := by
  have hlt := h.peak_lt 0
  omega

theorem contained_nil (n : Nat) : Contained (n + 1) [] :=
  ⟨fun _ => Nat.lt_add_of_pos_right n.succ_pos, List.forall_mem_nil _⟩

theorem Contained.append (h : Contained n xs) (hlevel : Level xs) (h' : Contained n ys) :
    Contained n (xs ++ ys) := by
  refine ⟨fun count => ?_, List.forall_mem_append.mpr ⟨h.continues, h'.continues⟩⟩
  rw [peak_append, hlevel count]
  exact Nat.max_lt.mpr ⟨h.peak_lt count, h'.peak_lt count⟩

theorem Contained.opened (h : Contained n xs) (hk : t.kind = .openParen) :
    Contained (n + 1) (t :: xs) := by
  refine ⟨fun count => ?_, List.forall_mem_cons.mpr ⟨by simp [hk], h.continues⟩⟩
  have hlt := h.peak_lt (count + 1)
  simp only [peak, openAfter, hk]
  omega

theorem Contained.closed (h : Contained n xs) (hlevel : Level xs) {closing : Token}
    (hk : t.kind = .openParen) (hk' : closing.kind = .closeParen) :
    Contained (n + 1) (t :: (xs ++ [closing])) := by
  refine Contained.opened ⟨fun count => ?_, ?_⟩ hk
  · have hpos := h.pos
    have hlt := h.peak_lt count
    rw [peak_append, hlevel count]
    simp only [peak, openAfter, hk']
    omega
  · exact List.forall_mem_append.mpr ⟨h.continues, by simp [hk']⟩

theorem Level.append (h : Level xs) (h' : Level ys) : Level (xs ++ ys) := by
  intro count
  rw [List.foldl_append, h count, h' count]

theorem Level.closed (h : Level xs) {closing : Token} (hk : t.kind = .openParen)
    (hk' : closing.kind = .closeParen) : Level (t :: (xs ++ [closing])) := by
  intro count
  simp [openAfter, hk, hk', h (count + 1)]

/-- Whether a token of the kind opens and closes nothing. -/
def Plain (kind : Token.Kind) : Prop :=
  kind ≠ .openParen ∧ kind ≠ .closeParen ∧ kind ≠ .terminator

theorem openAfter_plain (h : Plain t.kind) (count : Nat) : openAfter count t = count := by
  obtain ⟨hopen, hclose, hterminator⟩ := h
  unfold openAfter
  split
  · next hk => exact absurd hk hopen
  · next hk => exact absurd hk hclose
  · next hk => exact absurd hk hterminator
  · rfl

theorem contained_plain (h : Plain t.kind) (n : Nat) : Contained (n + 1) [t] := by
  refine ⟨fun count => ?_, List.forall_mem_singleton.mpr h.2.2⟩
  simp only [peak, openAfter_plain h]
  omega

theorem level_plain (h : Plain t.kind) : Level [t] :=
  openAfter_plain h

theorem plain_of_operator? {kind : Token.Kind} {op : Operator} (h : operator? kind = some op) :
    Plain kind := by
  rw [Operator.token_eq_of_operator? h]
  cases op <;> simp [Plain, Operator.token]

end Tokens

end Grammar

namespace Parse

open Grammar

/-- Whether every number among the tokens has a value that can be used. -/
def Usable (xs : List Token) : Prop :=
  ∀ x ∈ xs, x.kind = .number → ∃ value, numberOf x.value = .ok value

/-- Whether the tokens were taken with less than so many parentheses open at once and none left
open. -/
structure Passes (n : Nat) (r : Reader) (xs : List Token) (r' : Reader) : Prop where
  takes : r.Takes xs r'
  contained : Contained n xs
  level : Level xs
  usable : Usable xs

/-- How a rule fails that may open less than so many parentheses at once. -/
inductive Halts (n : Nat) (r : Reader) : ParseFailure → Reader → Prop
  | refused {xs : List Token} {e : ParseError} {r' : Reader} :
      r.Takes xs r' → Contained n xs → Halts n r (.parse e) r'
  -- At most a name that was looked at waits before the error.
  | broken {xs : List Token} {middle r' : Reader} {e : ScanError} :
      r.Takes xs middle → Contained n xs → middle.Breaks e r' → middle.rest.length ≤ 1 →
        Halts n r (.scan e) r'
  -- The last parenthesis is one too many.
  | deep {xs : List Token} {r' : Reader} :
      r.Takes xs r' → Contained (n + 1) xs → (∀ count, xs.foldl openAfter count = count + n) →
        Halts n r .tooDeep r'
  | unusable {xs : List Token} {t : Token} {f : ParseFailure} {r' : Reader} :
      r.Takes xs r' → Contained n xs → t ∈ xs → t.kind = .number →
        numberOf t.value = .error f → Halts n r f r'

/-- Whether a step keeps to less than so many open parentheses. -/
def Bounded {α : Type} (n : Nat) (step : Parse α) : Prop :=
  ∀ r : Reader, r.ending.kind = .endOfInput →
    Ensures step r (fun _ r' => ∃ xs, Passes n r xs r') (Halts n r)

/-! ## Steps in sequence -/

section Sequence

variable {α β : Type} {n : Nat} {r middle r' : Reader} {t : Token} {xs ys : List Token}

theorem usable_append (h : Usable xs) (h' : Usable ys) : Usable (xs ++ ys) :=
  List.forall_mem_append.mpr ⟨h, h'⟩

theorem passes_of_looked (h : r.Takes [] r') : Passes (n + 1) r [] r' :=
  ⟨h, contained_nil n, fun _ => rfl, List.forall_mem_nil _⟩

theorem passes_of_plain (h : r.Takes [t] r') (hk : Plain t.kind)
    (husable : t.kind = .number → ∃ value, numberOf t.value = .ok value) :
    Passes (n + 1) r [t] r' :=
  ⟨h, contained_plain hk n, level_plain hk, List.forall_mem_singleton.mpr husable⟩

theorem Passes.trans (h : Passes n r xs middle) (h' : Passes n middle ys r') :
    Passes n r (xs ++ ys) r' where
  takes := h.takes.trans h'.takes
  contained := h.contained.append h.level h'.contained
  level := h.level.append h'.level
  usable := usable_append h.usable h'.usable

theorem Halts.after {f : ParseFailure} (h : Halts n middle f r') (hpasses : Passes n r xs middle) :
    Halts n r f r' := by
  obtain ⟨htakes, hcontained, hlevel, -⟩ := hpasses
  cases h with
  | refused htakes' h => exact .refused (htakes.trans htakes') (hcontained.append hlevel h)
  | broken htakes' h hbreaks hlen =>
      exact .broken (htakes.trans htakes') (hcontained.append hlevel h) hbreaks hlen
  | deep htakes' h hcount =>
      have hwider : Contained (n + 1) xs :=
        ⟨fun count => (hcontained.peak_lt count).trans (by omega), hcontained.continues⟩
      refine .deep (htakes.trans htakes') (hwider.append hlevel h) fun count => ?_
      rw [List.foldl_append, hlevel count, hcount count]
  | unusable htakes' h hmem hk hvalue =>
      exact .unusable (htakes.trans htakes') (hcontained.append hlevel h)
        (List.mem_append_right xs hmem) hk hvalue

theorem Bounded.after {step : Parse α} (h : Bounded n step) (hpasses : Passes n r xs middle)
    (hend : r.ending.kind = .endOfInput) :
    Ensures step middle (fun _ r' => ∃ ys, Passes n r ys r') (Halts n r) := by
  refine (h middle (hpasses.takes.kind_ending hend)).imp ?_ ?_
  · rintro _ r' ⟨ys, hpasses'⟩
    exact ⟨xs ++ ys, hpasses.trans hpasses'⟩
  · intro f r' hhalts
    exact hhalts.after hpasses

theorem Bounded.bind {step : Parse α} {next : α → Parse β} (h : Bounded n step)
    (hnext : ∀ a, Bounded n (next a)) : Bounded n (step >>= next) := by
  intro r hend
  refine Ensures.bind ((h r hend).imp ?_ fun f r' hhalts => hhalts)
  rintro a middle ⟨xs, hpasses⟩
  exact (hnext a).after hpasses hend

theorem bounded_pure (a : α) : Bounded (n + 1) (pure a : Parse α) :=
  fun r _ => ⟨[], passes_of_looked (Reader.Takes.refl r)⟩

theorem bounded_reject (e : ParseError) : Bounded (n + 1) (reject e : Parse α) :=
  fun r _ => .refused (Reader.Takes.refl r) (contained_nil n)

theorem bounded_fuel : Bounded (n + 1) fuel :=
  fun r _ => ⟨[], passes_of_looked (Reader.Takes.refl r)⟩

theorem bounded_peek {k : Nat} (hk : k ≤ 1) : Bounded (n + 1) (peek k) := by
  intro r _
  refine ensures_peek (fun r' htakes _ => ⟨[], passes_of_looked htakes⟩) ?_
  intro e r' hbreaks hlen
  exact .broken (Reader.Takes.refl r) (contained_nil n) hbreaks (hlen.trans hk)

theorem halts_at_once {e : ScanError} (hbreaks : r.Breaks e r') (hnil : r.rest = []) :
    Halts (n + 1) r (.scan e) r' :=
  .broken (Reader.Takes.refl r) (contained_nil n) hbreaks (by simp [hnil])

theorem bounded_accept {kind : Token.Kind} (hplain : Plain kind) (hend : kind ≠ .endOfInput)
    (hnumber : kind ≠ .number) : Bounded (n + 1) (accept [kind]) := by
  intro r hr
  refine ensures_accept hr hend ?_ (fun r' _ htakes _ => ⟨[], passes_of_looked htakes⟩)
    fun e r' => halts_at_once
  intro r' hk htakes
  exact ⟨[r.next], passes_of_plain htakes (hk ▸ hplain) fun h => absurd (hk.symm.trans h) hnumber⟩

theorem bounded_expect {kind : Token.Kind} (hplain : Plain kind) (hend : kind ≠ .endOfInput)
    (hnumber : kind ≠ .number) : Bounded (n + 1) (expect [kind]) := by
  refine (bounded_accept hplain hend hnumber).bind fun t => ?_
  cases t with
  | some token => exact bounded_pure _
  | none => exact (bounded_peek (Nat.zero_le 1)).bind fun token => bounded_reject _

end Sequence

/-! ## Expressions -/

section Expressions

variable {n : Nat} {rule nested : Parse Tree}

theorem Bounded.unlessEnd (h : Bounded (n + 1) rule) (problem : ParseProblem) :
    Bounded (n + 1) (unlessEnd problem rule) := by
  refine (bounded_peek (Nat.zero_le 1)).bind fun t => ?_
  split
  · exact bounded_reject _
  · exact h

theorem Bounded.chain {k : Nat} {operators : Token.Kind → Option Operator}
    (htier : IsTier k operators) (h : Bounded (n + 1) rule) (rounds : Nat) (left : Tree) :
    Bounded (n + 1) (chain operators rule rounds left) := by
  induction rounds generalizing left with
  | zero => exact bounded_pure left
  | succ rounds ih =>
      intro r hend
      refine Ensures.bind (ensures_current (fun middle htakes hsettled => ?_)
        fun e r' => halts_at_once)
      split
      · exact ⟨[], passes_of_looked htakes⟩
      · next op hop =>
        have hoperator := ((htier _ op).mp hop).1
        have hplain := plain_of_operator? hoperator
        rw [← htakes.next_of_nil] at hoperator hplain
        have hne : middle.next.kind ≠ .endOfInput ∧ middle.next.kind ≠ .number := by
          constructor <;> intro hk <;> simp [hk, operator?] at hoperator
        refine Ensures.bind (ensures_advance hsettled (htakes.kind_ending hend) hne.1 ?_)
        intro r' htakes'
        have hpasses : Passes (n + 1) r [middle.next] r' :=
          passes_of_plain (htakes.trans htakes') hplain fun hk => absurd hk hne.2
        exact ((h.unlessEnd _).bind fun right => ih _).after hpasses hend

theorem Bounded.tier {k : Nat} {operators : Token.Kind → Option Operator}
    (htier : IsTier k operators) (h : Bounded (n + 1) rule) :
    Bounded (n + 1) (tier operators rule) :=
  h.bind fun left => bounded_fuel.bind fun rounds => h.chain htier rounds left

theorem bounded_bangs (rounds : Nat) (operand : Tree) : Bounded (n + 1) (bangs rounds operand) := by
  induction rounds generalizing operand with
  | zero => exact bounded_pure operand
  | succ rounds ih =>
      refine (bounded_accept (by simp [Plain]) (by simp) (by simp)).bind fun t => ?_
      cases t with
      | none => exact bounded_pure operand
      | some bang => exact ih _

/-- A group may open one parenthesis more than what stands in it. -/
theorem Halts.opened {r middle r' : Reader} {opening : Token} {f : ParseFailure}
    (h : Halts n middle f r') (htakes : r.Takes [opening] middle)
    (hk : opening.kind = .openParen) : Halts (n + 1) r f r' := by
  cases h with
  | refused htakes' h => exact .refused (htakes.trans htakes') (h.opened hk)
  | broken htakes' h hbreaks hlen =>
      exact .broken (htakes.trans htakes') (h.opened hk) hbreaks hlen
  | deep htakes' h hcount =>
      refine .deep (htakes.trans htakes') (h.opened hk) fun count => ?_
      simp only [List.singleton_append, List.foldl_cons, openAfter, hk, hcount]
      omega
  | unusable htakes' h hmem hk' hvalue =>
      exact .unusable (htakes.trans htakes') (h.opened hk) (List.mem_cons_of_mem _ hmem) hk' hvalue

theorem Bounded.group (h : Bounded n nested) {r : Reader} (hend : r.ending.kind = .endOfInput)
    (hk : r.next.kind = .openParen) :
    Ensures (group nested) r (fun _ r' => ∃ xs, Passes (n + 1) r xs r') (Halts (n + 1) r) := by
  refine Ensures.bind (ensures_expect hend (by decide) ?_ (fun r' hother => absurd hk hother)
    fun e r' => halts_at_once)
  intro middle _ htakes
  have hend' := htakes.kind_ending hend
  refine Ensures.bind ((h middle hend').imp ?_ fun f r' hhalts => hhalts.opened htakes hk)
  rintro inner after ⟨xs, hpasses⟩
  have htaken := htakes.trans hpasses.takes
  have hopened : Contained (n + 1) ([r.next] ++ xs) := hpasses.contained.opened hk
  refine Ensures.bind (ensures_accept (htaken.kind_ending hend) (by decide) ?_ ?_ ?_)
  · intro r' hclosing htakes'
    have husable : Usable (r.next :: (xs ++ [after.next])) :=
      List.forall_mem_cons.mpr ⟨by simp [hk], usable_append hpasses.usable
        (List.forall_mem_singleton.mpr (by simp [hclosing]))⟩
    exact ⟨r.next :: (xs ++ [after.next]), by simpa using htaken.trans htakes',
      hpasses.contained.closed hpasses.level hk hclosing, hpasses.level.closed hk hclosing,
      husable⟩
  · intro r' _ htakes' hsettled
    have hrefused (e : ParseError) : Halts (n + 1) r (.parse e) r' :=
      .refused (by simpa using htaken.trans htakes') hopened
    refine Ensures.bind (ensures_current_of_settled hsettled ?_)
    split
    · exact ensures_reject (hrefused _)
    · exact ensures_reject (hrefused _)
  · intro e r' hbreaks hnil
    exact .broken htaken hopened hbreaks (by simp [hnil])

theorem Bounded.primary (h : Bounded n nested) : Bounded (n + 1) (primary nested) := by
  intro r hend
  refine Ensures.bind (ensures_current (fun middle htakes hsettled => ?_)
    fun e r' => halts_at_once)
  have hnext := htakes.next_of_nil
  have hend' := htakes.kind_ending hend
  split
  · next hk =>
    refine Ensures.bind (ensures_advance hsettled hend' (by simp [hnext, hk]) ?_)
    intro r' htakes'
    rw [hnext] at htakes'
    have htaken := htakes.trans htakes'
    have hplain : Plain r.next.kind := by simp [Plain, hk]
    split
    · next value hvalue => exact ⟨_, passes_of_plain htaken hplain fun _ => ⟨value, hvalue⟩⟩
    · next f hvalue =>
      exact Halts.unusable htaken (contained_plain hplain n) (List.mem_singleton_self _) hk hvalue
  · next hk =>
    refine Ensures.bind (ensures_advance hsettled hend' (by simp [hnext, hk]) ?_)
    intro r' htakes'
    rw [hnext] at htakes'
    exact ⟨_, passes_of_plain (htakes.trans htakes') (by simp [Plain, hk]) (by simp [hk])⟩
  · next hk =>
    refine (h.group hend' (by rwa [hnext])).imp ?_ ?_
    · rintro t r' ⟨xs, hpasses⟩
      exact ⟨[] ++ xs, (passes_of_looked htakes).trans hpasses⟩
    · intro f r' hhalts
      exact hhalts.after (passes_of_looked htakes)
  · exact Halts.refused htakes (contained_nil n)

theorem Bounded.suffixed (h : Bounded n nested) : Bounded (n + 1) (suffixed nested) :=
  h.primary.bind fun operand => bounded_fuel.bind fun rounds => bounded_bangs rounds operand

/-- The number of levels left bounds the number of parentheses that are open at once. -/
theorem bounded_within (n : Nat) : Bounded n (within n) := by
  induction n with
  | zero => exact fun r _ => .deep (Reader.Takes.refl r) (contained_nil 0) fun count => rfl
  | succ n ih =>
      exact ((ih.suffixed.tier isTier_exponential).tier isTier_multiplicative).tier isTier_additive

end Expressions

/-! ## Statements -/

theorem bounded_statement : Bounded (nestingLimit + 1) statement := by
  have hexpression : Bounded (nestingLimit + 1) expression := bounded_within _
  have hbare : Bounded (nestingLimit + 1) bare := hexpression.bind fun body => bounded_pure _
  have hassign {target : Token} : Bounded (nestingLimit + 1) (do
      let sign ← expect [.assign]
      let body ← unlessEnd (.expectedExpression sign.value) expression
      return Tree.assign target.pos target.value.display body) := by
    refine (bounded_expect (by simp [Plain]) (by simp) (by simp)).bind fun sign => ?_
    exact (hexpression.unlessEnd _).bind fun body => bounded_pure _
  refine (bounded_peek (Nat.zero_le 1)).bind fun t => ?_
  split
  · refine (bounded_expect (by simp [Plain]) (by simp) (by simp)).bind fun keyword => ?_
    exact (hexpression.unlessEnd _).bind fun body => bounded_pure _
  · refine (bounded_peek (Nat.le_refl 1)).bind fun following => ?_
    split
    · exact (bounded_expect (by simp [Plain]) (by simp) (by simp)).bind fun target => hassign
    · exact hbare
  · exact hbare

/-! ## Programs -/

/-- Whether the tokens were taken within the limit, up to a place where no parenthesis is open. -/
structure Clears (r : Reader) (xs : List Token) (r' : Reader) : Prop where
  takes : r.Takes xs r'
  nesting_le : nesting xs ≤ nestingLimit
  count_eq : xs.foldl openAfter 0 = 0
  usable : Usable xs

/-- Whether the tokens end where a statement may start. -/
def EndsStatement (xs : List Token) : Prop :=
  ∀ t, xs.getLast? = some t → t.kind = .terminator

/-- How parsing a program fails: within the limit, or in a statement that passes it. -/
inductive Stalls (r : Reader) : ParseFailure → Reader → Prop
  | refused {xs : List Token} {e : ParseError} {r' : Reader} :
      r.Takes xs r' → nesting xs ≤ nestingLimit → Stalls r (.parse e) r'
  | broken {xs : List Token} {middle r' : Reader} {e : ScanError} :
      r.Takes xs middle → nesting xs ≤ nestingLimit → middle.Breaks e r' →
        middle.rest.length ≤ 1 → Stalls r (.scan e) r'
  | buried {xs ys : List Token} {start r' : Reader} :
      r.Takes xs start → nesting xs ≤ nestingLimit → EndsStatement xs → start.Takes ys r' →
        (∀ y ∈ ys, y.kind ≠ .terminator) → nestingLimit < ys.foldl openAfter 0 →
          Stalls r (.parse ⟨.tooDeep, start.next⟩) r'
  | unusable {xs : List Token} {t : Token} {f : ParseFailure} {r' : Reader} :
      r.Takes xs r' → nesting xs ≤ nestingLimit → t ∈ xs → t.kind = .number →
        numberOf t.value = .error f → Stalls r f r'

section Programs

variable {r middle r' : Reader} {xs ys : List Token} {f : ParseFailure}

theorem endsStatement_nil : EndsStatement [] := by
  intro t ht
  cases ht

theorem endsStatement_concat {t : Token} (h : t.kind = .terminator) (xs : List Token) :
    EndsStatement (xs ++ [t]) := by
  intro u hu
  rw [List.getLast?_concat] at hu
  exact Option.some.inj hu ▸ h

theorem EndsStatement.append (h : EndsStatement xs) (h' : EndsStatement ys) :
    EndsStatement (xs ++ ys) := by
  intro t ht
  rw [List.getLast?_append] at ht
  cases hlast : ys.getLast? with
  | none => exact h t (by simpa [hlast] using ht)
  | some u => exact h' t (by simpa [hlast] using ht)

theorem clears_of_looked (h : r.Takes [] r') : Clears r [] r' :=
  ⟨h, Nat.zero_le _, rfl, List.forall_mem_nil _⟩

theorem Clears.nesting_append_le (h : Clears r xs middle) (hle : nesting ys ≤ nestingLimit) :
    nesting (xs ++ ys) ≤ nestingLimit := by
  rw [nesting, peak_append, h.count_eq]
  exact Nat.max_le.mpr ⟨h.nesting_le, hle⟩

theorem Clears.trans (h : Clears r xs middle) (h' : Clears middle ys r') :
    Clears r (xs ++ ys) r' where
  takes := h.takes.trans h'.takes
  nesting_le := h.nesting_append_le h'.nesting_le
  count_eq := by rw [List.foldl_append, h.count_eq, h'.count_eq]
  usable := usable_append h.usable h'.usable

theorem Passes.clears (h : Passes (nestingLimit + 1) r xs r') : Clears r xs r' where
  takes := h.takes
  nesting_le := by
    have hlt := h.contained.peak_lt 0
    rw [nesting]
    omega
  count_eq := h.level 0
  usable := h.usable

theorem clears_terminator {t : Token} (h : r.Takes [t] r') (hk : t.kind = .terminator) :
    Clears r [t] r' := by
  refine ⟨h, ?_, by simp [openAfter, hk], List.forall_mem_singleton.mpr (by simp [hk])⟩
  simp [nesting, peak, openAfter, hk]

theorem Stalls.after (h : Stalls middle f r') (hclears : Clears r xs middle)
    (hends : EndsStatement xs) : Stalls r f r' := by
  have htakes := hclears.takes
  cases h with
  | refused htakes' hle => exact .refused (htakes.trans htakes') (hclears.nesting_append_le hle)
  | broken htakes' hle hbreaks hlen =>
      exact .broken (htakes.trans htakes') (hclears.nesting_append_le hle) hbreaks hlen
  | buried htakes' hle hends' htakes'' hys hdeep =>
      exact .buried (htakes.trans htakes') (hclears.nesting_append_le hle) (hends.append hends')
        htakes'' hys hdeep
  | unusable htakes' hle hmem hk hvalue =>
      exact .unusable (htakes.trans htakes') (hclears.nesting_append_le hle)
        (List.mem_append_right xs hmem) hk hvalue

/-- A statement fails within the limit, unless it fails for depth. -/
theorem Halts.stalls (h : Halts (nestingLimit + 1) r f r') (hne : f ≠ .tooDeep) :
    Stalls r f r' := by
  have hnesting {xs : List Token} (h : Contained (nestingLimit + 1) xs) :
      nesting xs ≤ nestingLimit := by
    have hlt := h.peak_lt 0
    rw [nesting]
    omega
  cases h with
  | refused htakes h => exact .refused htakes (hnesting h)
  | broken htakes h hbreaks hlen => exact .broken htakes (hnesting h) hbreaks hlen
  | deep => exact absurd rfl hne
  | unusable htakes h hmem hk hvalue => exact .unusable htakes (hnesting h) hmem hk hvalue

theorem Clears.broken {e : ScanError} (h : Clears r xs middle) (hbreaks : middle.Breaks e r')
    (hnil : middle.rest = []) : Stalls r (.scan e) r' :=
  .broken h.takes h.nesting_le hbreaks (by simp [hnil])

theorem ensures_terminators_clear (rounds : Nat) (hend : r.ending.kind = .endOfInput) :
    Ensures (terminators rounds) r (fun _ r' => ∃ xs, Clears r xs r' ∧ EndsStatement xs)
      (Stalls r) := by
  induction rounds generalizing r with
  | zero => exact ⟨[], clears_of_looked (Reader.Takes.refl r), endsStatement_nil⟩
  | succ rounds ih =>
      refine Ensures.bind (ensures_accept hend (by decide) ?_ ?_ ?_)
      · intro middle hk htakes
        have hclears := clears_terminator htakes hk
        have hends : EndsStatement [r.next] := endsStatement_concat hk []
        refine (ih (htakes.kind_ending hend)).imp ?_ fun f r' h => h.after hclears hends
        rintro - r' ⟨xs, hclears', hends'⟩
        exact ⟨[r.next] ++ xs, hclears.trans hclears', hends.append hends'⟩
      · intro r' _ htakes _
        exact ⟨[], clears_of_looked htakes, endsStatement_nil⟩
      · intro e r' hbreaks hnil
        exact (clears_of_looked (Reader.Takes.refl r)).broken hbreaks hnil

/-- Where a statement passes the limit, the failure is ascribed to its first token. -/
theorem ensures_first_clears (hend : r.ending.kind = .endOfInput) :
    Ensures (ifTooDeep statement (.parse ⟨.tooDeep, r.next⟩)) r
      (fun _ r' => ∃ xs, Clears r xs r') (Stalls r) := by
  refine ensures_ifTooDeep ((bounded_statement r hend).imp ?_ ?_)
  · rintro t r' ⟨xs, hpasses⟩
    exact ⟨xs, hpasses.clears⟩
  · intro f r' hhalts
    refine ⟨?_, hhalts.stalls⟩
    rintro rfl
    cases hhalts with
    | deep htakes hcontained hcount =>
        have hdeep := hcount 0
        exact .buried (Reader.Takes.refl r) (Nat.zero_le _) endsStatement_nil htakes
          hcontained.continues (by omega)
    | unusable _ _ _ _ hvalue => simpa using numberOf_cases hvalue

theorem ensures_record {event : Event} {good : Unit → Reader → Prop}
    {bad : ParseFailure → Reader → Prop} (h : good () (r.record event)) :
    Ensures (record event) r good bad := h

theorem ensures_statements_clear (rounds : Nat) (hend : r.ending.kind = .endOfInput) :
    Ensures (statements rounds) r (fun _ r' => ∃ xs, Clears r xs r') (Stalls r) := by
  induction rounds generalizing r with
  | zero => exact ⟨[], clears_of_looked (Reader.Takes.refl r)⟩
  | succ rounds ih =>
      refine Ensures.bind (ensures_fuel fun m _ => ?_)
      refine Ensures.bind ((ensures_terminators_clear m hend).imp ?_ fun f r' hstalls => hstalls)
      rintro - middle ⟨ws, hclears, hends⟩
      refine Ensures.bind (ensures_current (fun start htakes _ => ?_) fun e r' => hclears.broken)
      rw [← htakes.next_of_nil]
      have hstart : Clears r (ws ++ []) start := hclears.trans (clears_of_looked htakes)
      rw [List.append_nil] at hstart
      split
      · exact ⟨ws, hstart⟩
      · have hend' := hstart.takes.kind_ending hend
        refine Ensures.bind ((ensures_first_clears hend').imp ?_
          fun f r' hstalls => hstalls.after hstart hends)
        rintro first done ⟨xs, hfirst⟩
        refine Ensures.bind (ensures_record ?_)
        have hrecorded := (hstart.trans hfirst).trans (clears_of_looked (takes_record (r := done)
          (.parsed first.kind first.pos)))
        refine Ensures.bind (ensures_current (fun after htakes' hsettled => ?_)
          fun e r' => hrecorded.broken)
        have hafter := hrecorded.trans (clears_of_looked htakes')
        have hend'' := hafter.takes.kind_ending hend
        rw [← htakes'.next_of_nil]
        split
        · refine Ensures.bind (ensures_expect hend'' (by decide) ?_ ?_ fun e r' => hafter.broken)
          · intro further hk htakes''
            have hfurther := hafter.trans (clears_terminator htakes'' hk)
            refine Ensures.bind ((ih (hfurther.takes.kind_ending hend)).imp ?_
              fun f r' hstalls => hstalls.after hfurther (endsStatement_concat hk _))
            rintro others r' ⟨ys, hothers⟩
            exact ⟨_, hfurther.trans hothers⟩
          · intro r' _ htakes'' _
            have hlooked := hafter.trans (clears_of_looked htakes'')
            exact .refused hlooked.takes hlooked.nesting_le
        · next hk =>
          have hlast : after.next.kind = .endOfInput := not_not.mp hk
          refine Ensures.bind ?_
          rw [Ensures, statements_at_end rounds hsettled hlast]
          exact ⟨_, hafter⟩

/-- A program is read within the limit, or parsing fails within it or in a statement that passes
it. -/
theorem ensures_program_clears (hend : r.ending.kind = .endOfInput) :
    Ensures program r (fun _ r' => ∃ xs, Clears r xs r') (Stalls r) :=
  Ensures.bind (ensures_fuel fun rounds _ => ensures_statements_clear rounds hend)

end Programs

end Parse

end Reckoner
