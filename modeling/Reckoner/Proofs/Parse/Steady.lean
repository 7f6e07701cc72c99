import Reckoner.Proofs.Parse.Agreement

/-!
# What no step of parsing changes

The end-of-input token stays as it is, through steps that look further ahead and through steps that
fail. Reading an expression may fail because it is nested too deeply, and this failure does not say
in which statement; where statements are read it is replaced by one that does. Both are proved
together, rule by rule.
-/

namespace Reckoner.Parse

section Steps

variable {α β : Type} {unascribed : Prop}

/-- Whether a step leaves the end-of-input token as it is, whichever way it ends. Only if
`unascribed` holds it may fail for a depth that is not ascribed to a statement. -/
def Steady (unascribed : Prop) (step : Parse α) : Prop :=
  ∀ r : Reader, (step r).2.ending = r.ending ∧ ((step r).1 = .error .tooDeep → unascribed)

theorem Steady.ending_eq {step : Parse α} (h : Steady True step) (r : Reader) :
    (step r).2.ending = r.ending :=
  (h r).1

theorem Steady.ne_tooDeep {step : Parse α} (h : Steady False step) (r : Reader) :
    (step r).1 ≠ .error .tooDeep :=
  (h r).2

theorem steady_pure (a : α) : Steady unascribed (pure a : Parse α) :=
  fun _ => ⟨rfl, nofun⟩

theorem steady_reject (e : ParseError) : Steady unascribed (reject e : Parse α) :=
  fun _ => ⟨rfl, nofun⟩

theorem steady_fail (f : ParseFailure) : Steady True (fail f : Parse α) :=
  fun _ => ⟨rfl, fun _ => trivial⟩

theorem steady_record (event : Event) : Steady unascribed (record event) :=
  fun _ => ⟨rfl, nofun⟩

theorem steady_fuel : Steady unascribed fuel :=
  fun _ => ⟨rfl, nofun⟩

theorem Steady.bind {step : Parse α} {next : α → Parse β} (h : Steady unascribed step)
    (hnext : ∀ a, Steady unascribed (next a)) : Steady unascribed (step >>= next) := by
  intro r
  have hstep := h r
  rw [bind_apply]
  match hr : step r with
  | (.ok a, s) =>
      rw [hr] at hstep
      obtain ⟨hending, hdeep⟩ := hnext a s
      exact ⟨hending.trans hstep.1, hdeep⟩
  | (.error f, s) =>
      rw [hr] at hstep
      refine ⟨hstep.1, fun hf => hstep.2 ?_⟩
      cases hf
      rfl

/-- A failure that is replaced by an error about a statement is ascribed to it. -/
theorem Steady.ifTooDeep {step : Parse α} (h : Steady True step) (e : ParseError) :
    Steady unascribed (ifTooDeep step (.parse e)) := by
  intro r
  have hending := h.ending_eq r
  unfold Parse.ifTooDeep
  split
  · next hr =>
    rw [hr] at hending
    exact ⟨hending, nofun⟩
  · next hother =>
    exact ⟨hending, fun hdeep => (hother _ (Prod.ext hdeep rfl)).elim⟩

end Steps

/-! ## Single tokens -/

section Tokens

variable {unascribed : Prop}

theorem steady_peek (k : Nat) : Steady unascribed (peek k) := by
  intro r
  rcases peek_cases k r with ⟨s, hpeek, htakes, -⟩ | ⟨e, s, hpeek, hbreaks, -⟩
  · rw [hpeek]
    exact ⟨htakes.ending_eq, nofun⟩
  · rw [hpeek]
    exact ⟨hbreaks.ending_eq, nofun⟩

theorem steady_peekAt (offset : Int) : Steady unascribed (peekAt offset) := by
  cases offset with
  | ofNat k => exact steady_peek k
  | negSucc distance =>
      intro r
      simp only [peekAt]
      cases r.lookBack? distance <;> exact ⟨rfl, nofun⟩

theorem ending_drop (r : Reader) : r.drop.ending = r.ending := by
  unfold Reader.drop
  split <;> rfl

theorem steady_advance : Steady unascribed advance := by
  apply (steady_peek 0).bind
  intro t r
  exact ⟨ending_drop r, nofun⟩

theorem steady_accept (kinds : List Token.Kind) : Steady unascribed (accept kinds) := by
  apply (steady_peek 0).bind
  intro t
  split
  · exact steady_advance.bind fun u => steady_pure _
  · exact steady_pure _

theorem steady_expect (kinds : List Token.Kind) : Steady unascribed (expect kinds) := by
  apply (steady_accept kinds).bind
  intro t
  split
  · exact steady_pure _
  · exact (steady_peek 0).bind fun u => steady_reject _

end Tokens

/-! ## Expressions -/

section Expressions

variable {rule nested : Parse Tree}

theorem Steady.unlessEnd (h : Steady True rule) (problem : ParseProblem) :
    Steady True (unlessEnd problem rule) := by
  apply (steady_peek 0).bind
  intro t
  split
  · exact steady_reject _
  · exact h

theorem Steady.chain (h : Steady True rule) (operators : Token.Kind → Option Operator) (n : Nat)
    (left : Tree) : Steady True (chain operators rule n left) := by
  induction n generalizing left with
  | zero => exact steady_pure left
  | succ n ih =>
      apply (steady_peek 0).bind
      intro t
      cases operators t.kind with
      | none => exact steady_pure left
      | some op =>
          apply steady_advance.bind
          intro _
          exact (h.unlessEnd _).bind fun right => ih _

theorem Steady.tier (h : Steady True rule) (operators : Token.Kind → Option Operator) :
    Steady True (tier operators rule) :=
  h.bind fun left => steady_fuel.bind fun n => h.chain operators n left

theorem steady_bangs (n : Nat) (operand : Tree) : Steady True (bangs n operand) := by
  induction n generalizing operand with
  | zero => exact steady_pure operand
  | succ n ih =>
      apply (steady_accept _).bind
      intro t
      cases t with
      | none => exact steady_pure operand
      | some bang => exact ih _

theorem Steady.group (h : Steady True nested) : Steady True (group nested) := by
  apply (steady_expect _).bind
  intro opening
  apply h.bind
  intro inner
  apply (steady_accept _).bind
  intro t
  split
  · exact steady_pure _
  · apply (steady_peek 0).bind
    intro u
    split <;> exact steady_reject _

theorem Steady.primary (h : Steady True nested) : Steady True (primary nested) := by
  apply (steady_peek 0).bind
  intro t
  split
  · apply steady_advance.bind
    intro _
    split
    · exact steady_pure _
    · exact steady_fail _
  · exact steady_advance.bind fun _ => steady_pure _
  · exact h.group
  · exact steady_reject _

theorem Steady.suffixed (h : Steady True nested) : Steady True (suffixed nested) :=
  h.primary.bind fun operand => steady_fuel.bind fun n => steady_bangs n operand

theorem Steady.factor (h : Steady True nested) : Steady True (factor nested) :=
  h.suffixed.tier _

theorem Steady.term (h : Steady True nested) : Steady True (term nested) :=
  h.factor.tier _

theorem steady_within (n : Nat) : Steady True (within n) := by
  induction n with
  | zero => exact steady_fail _
  | succ n ih => exact ih.term.tier _

end Expressions

/-! ## Statements -/

theorem steady_printing : Steady True printing := by
  apply (steady_expect _).bind
  intro keyword
  exact ((steady_within _).unlessEnd _).bind fun body => steady_pure _

theorem steady_assignment : Steady True assignment := by
  apply (steady_expect _).bind
  intro target
  apply (steady_expect _).bind
  intro sign
  exact ((steady_within _).unlessEnd _).bind fun body => steady_pure _

theorem steady_statement : Steady True statement := by
  have hbare : Steady True bare := (steady_within _).bind fun body => steady_pure _
  apply (steady_peek 0).bind
  intro t
  split
  · exact steady_printing
  · apply (steady_peek 1).bind
    intro following
    split
    · exact steady_assignment
    · exact hbare
  · exact hbare

/-! ## Programs -/

section Programs

variable {unascribed : Prop}

theorem steady_terminators (n : Nat) : Steady unascribed (terminators n) := by
  induction n with
  | zero => exact steady_pure _
  | succ n ih =>
      apply (steady_accept _).bind
      intro t
      cases t with
      | none => exact steady_pure _
      | some terminator => exact ih

theorem steady_statements (n : Nat) : Steady unascribed (statements n) := by
  induction n with
  | zero => exact steady_pure _
  | succ n ih =>
      apply steady_fuel.bind
      intro m
      apply (steady_terminators m).bind
      intro _
      apply (steady_peek 0).bind
      intro start
      split
      · exact steady_pure _
      -- The statement may be steady in the weak sense only; its failure for depth is replaced here.
      · apply (steady_statement.ifTooDeep _).bind
        intro first
        have hrest : Steady unascribed (do return first :: (← statements n)) :=
          ih.bind fun others => steady_pure _
        apply (steady_record _).bind
        intro _
        apply (steady_peek 0).bind
        intro following
        split
        · exact (steady_expect _).bind fun _ => hrest
        · exact hrest

theorem steady_program : Steady unascribed program :=
  steady_fuel.bind steady_statements

end Programs

end Reckoner.Parse
