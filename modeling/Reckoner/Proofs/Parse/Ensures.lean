import Reckoner.Proofs.Parse.Reading

/-!
# What steps of parsing ensure

A step ensures one thing of its result and the reader it leaves, or another thing of its failure
and the reader it leaves. For steps in sequence the first one has to ensure what the next one
needs. The steps that look at single tokens are described by what the reader shows.
-/

namespace Reckoner.Parse

variable {α β : Type}

/-- Whether a step ends well or badly in the given senses. -/
def Ensures (step : Parse α) (r : Reader) (good : α → Reader → Prop)
    (bad : ParseFailure → Reader → Prop) : Prop :=
  match step r with
  | (.ok a, r') => good a r'
  | (.error f, r') => bad f r'

section Sequence

variable {r : Reader} {good : α → Reader → Prop} {bad : ParseFailure → Reader → Prop}

theorem Ensures.of_ok {step : Parse α} (h : Ensures step r good bad) {a : α} {r' : Reader}
    (hstep : step r = (.ok a, r')) : good a r' := by
  simpa only [Ensures, hstep] using h

theorem Ensures.of_error {step : Parse α} (h : Ensures step r good bad) {f : ParseFailure}
    {r' : Reader} (hstep : step r = (.error f, r')) : bad f r' := by
  simpa only [Ensures, hstep] using h

theorem Ensures.imp {step : Parse α} {good' : α → Reader → Prop}
    {bad' : ParseFailure → Reader → Prop} (h : Ensures step r good bad)
    (hgood : ∀ a r', good a r' → good' a r') (hbad : ∀ f r', bad f r' → bad' f r') :
    Ensures step r good' bad' := by
  unfold Ensures at h ⊢
  split
  · next heq => exact hgood _ _ (by simpa only [heq] using h)
  · next heq => exact hbad _ _ (by simpa only [heq] using h)

theorem Ensures.and {step : Parse α} {good' : α → Reader → Prop}
    {bad' : ParseFailure → Reader → Prop} (h : Ensures step r good bad)
    (h' : Ensures step r good' bad') :
    Ensures step r (fun a r' => good a r' ∧ good' a r') (fun f r' => bad f r' ∧ bad' f r') := by
  unfold Ensures at h h' ⊢
  split
  · next heq =>
    simp only [heq] at h h'
    exact ⟨h, h'⟩
  · next heq =>
    simp only [heq] at h h'
    exact ⟨h, h'⟩

theorem Ensures.bind {step : Parse α} {next : α → Parse β} {good : β → Reader → Prop}
    (h : Ensures step r (fun a r' => Ensures (next a) r' good bad) bad) :
    Ensures (step >>= next) r good bad := by
  unfold Ensures at h
  rw [Ensures, bind_apply]
  match hstep : step r with
  | (.ok a, r') => simpa only [hstep] using h
  | (.error f, r') => simpa only [hstep] using h

theorem ensures_reject {e : ParseError} (h : bad (.parse e) r) :
    Ensures (reject e) r good bad := h

theorem ensures_fuel {good : Nat → Reader → Prop} (h : ∀ n, r.rest.length < n → good n r) :
    Ensures fuel r good bad :=
  h (r.budget + 1) (Nat.lt_succ_of_le r.length_rest_le)

end Sequence

/-! ## Single tokens -/

section Tokens

variable {r : Reader} {bad : ParseFailure → Reader → Prop}

/-- Looking ahead gives the token at the distance, unless the text has an error before it. -/
theorem ensures_peek {good : Token → Reader → Prop} {k : Nat}
    (hgood : ∀ r', r.Takes [] r' → (k < r'.buffer.length ∨ r'.sentinel?.isSome = true) →
      good (r.rest[k]?.getD r.ending) r')
    (hbad : ∀ e r', r.Breaks e r' → r.rest.length ≤ k → bad (.scan e) r') :
    Ensures (peek k) r good bad := by
  unfold Ensures peek
  match hfill : r.fill (k + 1) with
  | (.ok (), r') =>
      obtain ⟨htakes, henough⟩ := Reader.takes_of_pullMany hfill
      have hlooked : k < r'.buffer.length ∨ r'.sentinel?.isSome = true :=
        henough.imp_left fun hle => by omega
      simp only [Reader.look_eq hlooked, htakes.rest_of_nil, htakes.ending_eq]
      exact hgood r' htakes hlooked
  | (.error e, r') =>
      obtain ⟨hbreaks, hlt⟩ := Reader.breaks_of_pullMany hfill
      apply hbad e r' hbreaks
      have hle : r.buffer.length ≤ r.rest.length := by simp [Reader.rest]
      omega

theorem ensures_current {good : Token → Reader → Prop}
    (hgood : ∀ r', r.Takes [] r' → r'.Settled → good r.next r')
    (hbad : ∀ e r', r.Breaks e r' → r.rest = [] → bad (.scan e) r') :
    Ensures current r good bad := by
  refine ensures_peek (fun r' htakes hlooked => ?_) fun e r' hbreaks hlen => ?_
  · have hnext : r.rest[0]?.getD r.ending = r.next := by
      rw [Reader.next, List.headD_eq_head?_getD, List.head?_eq_getElem?]
    rw [hnext]
    exact hgood r' htakes (hlooked.imp_left List.ne_nil_of_length_pos)
  · exact hbad e r' hbreaks (List.eq_nil_of_length_eq_zero (Nat.le_zero.mp hlen))

theorem current_of_settled (h : r.Settled) : current r = (.ok r.next, r) := by
  have hfill : r.fill 1 = (.ok (), r) := by
    rcases h with hbuffer | hsome
    · have hpos := List.length_pos_iff.mpr hbuffer
      have hnone : 1 - r.buffer.length = 0 := by omega
      simp [Reader.fill, hnone, Reader.pullMany]
    · cases hcount : 1 - r.buffer.length with
      | zero => simp [Reader.fill, hcount, Reader.pullMany]
      | succ n => simp [Reader.fill, hcount, Reader.pullMany, hsome]
  have hlook : r.look 0 = r.next := by
    rw [Reader.look_eq (h.imp_left List.length_pos_iff.mpr), Reader.next,
      List.headD_eq_head?_getD, List.head?_eq_getElem?]
  simp [current, peek, hfill, hlook]

theorem ensures_current_of_settled {good : Token → Reader → Prop} (h : r.Settled)
    (hgood : good r.next r) : Ensures current r good bad := by
  rw [Ensures, current_of_settled h]
  exact hgood

theorem takes_drop_of_cons {t : Token} {ts : List Token} (h : r.Settled)
    (hrest : r.rest = t :: ts) : r.Takes [t] r.drop := by
  cases hbuffer : r.buffer with
  | nil =>
      have hsome := h.resolve_left (not_not_intro hbuffer)
      simp [Reader.rest, hbuffer, hsome] at hrest
  | cons u us =>
      have hdrop : r.drop = { r with buffer := us, taken := r.taken + 1 } := by
        simp [Reader.drop, hbuffer]
      have hsame : u = t := by
        simp only [Reader.rest, hbuffer, List.cons_append, List.cons.injEq] at hrest
        exact hrest.1
      rw [hdrop, ← hsame]
      exact ⟨by simp [Reader.rest, hbuffer], rfl, rfl, rfl⟩

/-- The next token is taken off the tokens to come, unless it is the end of the input. -/
theorem takes_drop (h : r.Settled) (hend : r.ending.kind = .endOfInput)
    (hnext : r.next.kind ≠ .endOfInput) : r.Takes [r.next] r.drop := by
  obtain ⟨ts, hrest⟩ := Reader.rest_eq_cons hend hnext
  exact takes_drop_of_cons h hrest

theorem advance_of_settled (h : r.Settled) : advance r = (.ok r.next, r.drop) := by
  refine (bind_apply current _ r).trans ?_
  rw [current_of_settled h]

theorem ensures_advance {good : Token → Reader → Prop} (h : r.Settled)
    (hend : r.ending.kind = .endOfInput) (hnext : r.next.kind ≠ .endOfInput)
    (hgood : ∀ r', r.Takes [r.next] r' → good r.next r') : Ensures advance r good bad := by
  rw [Ensures, advance_of_settled h]
  exact hgood _ (takes_drop h hend hnext)

theorem ensures_accept {good : Option Token → Reader → Prop} {kind : Token.Kind}
    (hend : r.ending.kind = .endOfInput) (hkind : kind ≠ .endOfInput)
    (hsome : ∀ r', r.next.kind = kind → r.Takes [r.next] r' → good (some r.next) r')
    (hnone : ∀ r', r.next.kind ≠ kind → r.Takes [] r' → r'.Settled → good none r')
    (hbad : ∀ e r', r.Breaks e r' → r.rest = [] → bad (.scan e) r') :
    Ensures (accept [kind]) r good bad := by
  refine Ensures.bind (ensures_current (fun r' htakes hsettled => ?_) hbad)
  by_cases hk : r.next.kind = kind
  · rw [if_pos (by simp [hk])]
    have hsame := htakes.next_of_nil
    have hnext : r'.next.kind ≠ .endOfInput := by rwa [hsame, hk]
    refine Ensures.bind (ensures_advance hsettled (htakes.kind_ending hend) hnext ?_)
    intro r'' htakes'
    rw [hsame] at htakes' ⊢
    exact hsome r'' hk (htakes.trans htakes')
  · rw [if_neg (by simpa using hk)]
    exact hnone r' hk htakes hsettled

theorem ensures_expect {good : Token → Reader → Prop} {kind : Token.Kind}
    (hend : r.ending.kind = .endOfInput) (hkind : kind ≠ .endOfInput)
    (hgood : ∀ r', r.next.kind = kind → r.Takes [r.next] r' → good r.next r')
    (hother : ∀ r', r.next.kind ≠ kind → r.Takes [] r' → r'.Settled →
      bad (.parse (.unexpected r.next)) r')
    (hbad : ∀ e r', r.Breaks e r' → r.rest = [] → bad (.scan e) r') :
    Ensures (expect [kind]) r good bad := by
  refine Ensures.bind (ensures_accept hend hkind hgood ?_ hbad)
  intro r' hk htakes hsettled
  refine Ensures.bind (ensures_current_of_settled hsettled ?_)
  rw [htakes.next_of_nil]
  exact hother r' hk htakes hsettled

end Tokens

end Reckoner.Parse
