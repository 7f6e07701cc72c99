import Reckoner.Proofs.Parse.Lockstep

/-!
# Readers that show the same

What the rules do depends only on what the reader shows: the tokens to come, the error or the end
of the input after them, and how many tokens were taken. It does not matter where the tokens come
from and how many of them have been looked at. Readers that show the same go in lockstep.
-/

namespace Reckoner

/-- Whether two readers show the same. -/
structure Reader.Alike (r r' : Reader) : Prop where
  rest_eq : r'.rest = r.rest
  error_eq : r'.error? = r.error?
  ending_eq : r'.ending = r.ending
  taken_eq : r'.taken = r.taken
  kind_ending : r.ending.kind = .endOfInput

namespace Reader.Alike

variable {r r' s s' : Reader} {xs : List Token}

theorem of_takes (h : r.Alike r') (htakes : r.Takes xs s) (htakes' : r'.Takes xs s') :
    s.Alike s' where
  rest_eq := by
    have hrest := h.rest_eq
    rw [htakes.rest_eq, htakes'.rest_eq] at hrest
    exact List.append_cancel_left hrest
  error_eq := by rw [htakes.error_eq, htakes'.error_eq, h.error_eq]
  ending_eq := by rw [htakes.ending_eq, htakes'.ending_eq, h.ending_eq]
  taken_eq := by rw [htakes.taken_eq, htakes'.taken_eq, h.taken_eq]
  kind_ending := by
    rw [htakes.ending_eq]
    exact h.kind_ending

theorem of_breaks {e e' : ScanError} (h : r.Alike r') (hbreaks : r.Breaks e s)
    (hbreaks' : r'.Breaks e' s') : s.Alike s' where
  rest_eq := by rw [hbreaks.rest_eq, hbreaks'.rest_eq, h.rest_eq]
  error_eq := by rw [hbreaks.error_after, hbreaks'.error_after]
  ending_eq := by rw [hbreaks.ending_eq, hbreaks'.ending_eq, h.ending_eq]
  taken_eq := by rw [hbreaks.taken_eq, hbreaks'.taken_eq, h.taken_eq]
  kind_ending := by
    rw [hbreaks.ending_eq]
    exact h.kind_ending

end Reader.Alike

namespace Parse

variable {α : Type} {r r' : Reader}

theorem peek_cases (k : Nat) (r : Reader) :
    (∃ s, peek k r = (.ok (r.rest[k]?.getD r.ending), s) ∧ r.Takes [] s ∧
        (k < r.rest.length ∨ r.error? = none)) ∨
      (∃ e s, peek k r = (.error (.scan e), s) ∧ r.Breaks e s ∧ r.rest.length ≤ k) := by
  have hpeek : Ensures (peek k) r
      (fun t s => t = r.rest[k]?.getD r.ending ∧ r.Takes [] s ∧
        (k < r.rest.length ∨ r.error? = none))
      (fun f s => ∃ e, f = .scan e ∧ r.Breaks e s ∧ r.rest.length ≤ k) := by
    refine ensures_peek (fun s htakes hlooked => ⟨rfl, htakes, ?_⟩)
      fun e s hbreaks hlen => ⟨e, rfl, hbreaks, hlen⟩
    refine hlooked.imp (fun hk => ?_) fun hsome => ?_
    · rw [← htakes.rest_of_nil, Reader.rest, List.length_append]
      exact Nat.lt_of_lt_of_le hk (Nat.le_add_right _ _)
    · rw [← htakes.error_eq]
      simp [Reader.error?, hsome]
  rcases hstep : peek k r with ⟨f | t, s⟩
  · obtain ⟨e, rfl, hbreaks, hlen⟩ := hpeek.of_error hstep
    exact Or.inr ⟨e, s, rfl, hbreaks, hlen⟩
  · obtain ⟨rfl, htakes, hlooked⟩ := hpeek.of_ok hstep
    exact Or.inl ⟨s, rfl, htakes, hlooked⟩

theorem peek_alike (k : Nat) (halike : r.Alike r') :
    Agree Eq Reader.Alike Eq r.rest.length (peek k r) (peek k r') := by
  rcases peek_cases k r with ⟨s, hpeek, htakes, hlooked⟩ | ⟨e, s, hpeek, hbreaks, hlen⟩ <;>
    rcases peek_cases k r' with ⟨s', hpeek', htakes', hlooked'⟩ | ⟨e', s', hpeek', hbreaks', hlen'⟩
  · rw [hpeek, hpeek', halike.rest_eq, halike.ending_eq]
    exact .ok rfl (halike.of_takes htakes htakes') (htakes.rest_of_nil ▸ Nat.le_refl _)
  · exfalso
    have herror := hbreaks'.error_eq
    rw [halike.error_eq] at herror
    rw [halike.rest_eq] at hlen'
    rcases hlooked with hk | hnone
    · omega
    · simp [hnone] at herror
  · exfalso
    have herror := hbreaks.error_eq
    rw [← halike.error_eq] at herror
    rw [halike.rest_eq] at hlooked'
    rcases hlooked' with hk | hnone
    · omega
    · simp [hnone] at herror
  · rw [hpeek, hpeek']
    have hsame : e = e' := by
      have herror := hbreaks'.error_eq
      rw [halike.error_eq, hbreaks.error_eq] at herror
      exact Option.some.inj herror
    subst hsame
    have hscan : FailsLike Eq (.scan e) (.scan e) := .other fun f hf => by cases hf
    exact .error hscan (halike.of_breaks hbreaks hbreaks') (hbreaks.rest_eq ▸ Nat.le_refl _)

theorem lockstep_alike : Lockstep Eq Reader.Alike where
  kind_eq h := by rw [h]
  token_eq h _ := h.symm
  kind_ending h := h.kind_ending
  length_le h := by rw [h.rest_eq]
  peek k h _ := peek_alike k h
  drop {r r'} h hsettled hsettled' hk := by
    obtain ⟨ts, hrest⟩ := Reader.rest_eq_cons h.kind_ending hk
    have htakes := takes_drop_of_cons hsettled hrest
    exact h.of_takes htakes (takes_drop_of_cons hsettled' (h.rest_eq.trans hrest))
  record _ h := ⟨h.rest_eq, h.error_eq, h.ending_eq, h.taken_eq, h.kind_ending⟩

/-- Whether two runs have ended in the same way with readers that show the same. -/
structure EndsAlike (o o' : Except ParseFailure α × Reader) : Prop where
  outcome : o.1 = o'.1
  alike : o.2.Alike o'.2

theorem Agree.endsAlike {b : Nat} {o o' : Except ParseFailure α × Reader}
    (h : Agree Eq Reader.Alike Eq b o o') : EndsAlike o o' := by
  cases h with
  | ok hv hs _ => exact ⟨congrArg Except.ok hv, hs⟩
  | error hf hs _ =>
      cases hf with
      | token ht => exact ⟨by rw [ht], hs⟩
      | other _ => exact ⟨rfl, hs⟩

theorem uniform_program (r r' : Reader) (h : r.Alike r') : EndsAlike (program r) (program r') :=
  (lockstep_alike.program r r' h).endsAlike

end Parse

end Reckoner
