import Reckoner.Proofs.Tree.Unambiguity

/-!
# Parentheses that are not closed

Which closing parenthesis belongs to an opening one is said of the tokens alone: what stands
between the two is balanced. The stack of the automaton holds the positions of the opening
parentheses that have no closing one yet, and its top is the last of them.
-/

namespace Reckoner.Grammar

/-- Whether every parenthesis among the tokens belongs to another one among them. -/
inductive Balanced : List Token → Prop
  | nil : Balanced []
  | other {t : Token} {ts : List Token} :
      t.kind ≠ .openParen → t.kind ≠ .closeParen → Balanced ts → Balanced (t :: ts)
  | group {opening closing : Token} {inner ts : List Token} :
      opening.kind = .openParen → Balanced inner → closing.kind = .closeParen → Balanced ts →
        Balanced (opening :: (inner ++ closing :: ts))

/-- Whether a parenthesis is closed among the tokens that follow it. -/
def ClosedBy (after : List Token) : Prop :=
  ∃ inner closing rest, after = inner ++ closing :: rest ∧ Balanced inner ∧
    closing.kind = .closeParen

/-- Whether the token is the last opening parenthesis of the statement at the end of the tokens
that is not closed among them. -/
def LastUnclosed (opening : Token) (ts : List Token) : Prop :=
  ∃ before after, ts = before ++ opening :: after ∧ opening.kind = .openParen ∧
    (∀ t ∈ after, t.kind ≠ .terminator) ∧ ¬ ClosedBy after ∧
    ∀ xs t ys, after = xs ++ t :: ys → t.kind = .openParen → ClosedBy ys

/-! ## Balanced tokens -/

theorem ClosedBy.append {after : List Token} (h : ClosedBy after) (more : List Token) :
    ClosedBy (after ++ more) := by
  obtain ⟨inner, closing, rest, rfl, hinner, hclosing⟩ := h
  exact ⟨inner, closing, rest ++ more, by simp, hinner, hclosing⟩

theorem Balanced.append {xs ys : List Token} (hx : Balanced xs) (hy : Balanced ys) :
    Balanced (xs ++ ys) := by
  induction hx with
  | nil => exact hy
  | other hopen hclose _ ih => exact .other hopen hclose ih
  | group hopen hinner hclose _ _ ih =>
      simpa using Balanced.group hopen hinner hclose ih

theorem Balanced.singleton {t : Token} (hopen : t.kind ≠ .openParen)
    (hclose : t.kind ≠ .closeParen) : Balanced [t] :=
  .other hopen hclose .nil

/-- The number of open parentheses after the tokens, unless more were closed than opened. -/
def level? (count : Nat) : List Token → Option Nat
  | [] => some count
  | t :: ts =>
    match t.kind, count with
    | .openParen, _ => level? (count + 1) ts
    | .closeParen, 0 => none
    | .closeParen, outer + 1 => level? outer ts
    | _, _ => level? count ts

theorem level?_append (count : Nat) (xs ys : List Token) :
    level? count (xs ++ ys) = (level? count xs).bind fun n => level? n ys := by
  induction xs generalizing count with
  | nil => rfl
  | cons t xs ih =>
      simp only [List.cons_append, level?]
      split
      · exact ih _
      · rfl
      · exact ih _
      · exact ih _

theorem Balanced.level?_eq {ts : List Token} (h : Balanced ts) (count : Nat) :
    level? count ts = some count := by
  induction h generalizing count with
  | nil => rfl
  | other hopen hclose _ ih =>
      simp only [level?]
      split
      · next hk => exact absurd hk hopen
      · next hk => exact absurd hk hclose
      · next hk => exact absurd hk hclose
      · exact ih _
  | group hopen _ hclose _ ihinner ih =>
      simp [level?, hopen, hclose, level?_append, ihinner, ih]

theorem Balanced.not_closedBy {ts : List Token} (h : Balanced ts) : ¬ ClosedBy ts := by
  rintro ⟨inner, closing, rest, rfl, hinner, hclosing⟩
  have hlevel := h.level?_eq 0
  simp [level?_append, hinner.level?_eq, level?, hclosing] at hlevel

/-- Each opening parenthesis among balanced tokens is closed among them. -/
theorem Balanced.closedBy {ts xs ys : List Token} {t : Token} (h : Balanced ts)
    (hts : ts = xs ++ t :: ys) (hk : t.kind = .openParen) : ClosedBy ys := by
  induction h generalizing xs ys with
  | nil => simp at hts
  | other hopen _ _ ih =>
      cases xs with
      | nil =>
          obtain ⟨rfl, -⟩ := List.cons.inj hts
          exact absurd hk hopen
      | cons x xs => exact ih (List.cons.inj hts).2
  | @group opening closing inner rest _ hinner hclose _ ihinner ih =>
      cases xs with
      | nil => exact ⟨inner, closing, rest, (List.cons.inj hts).2.symm, hinner, hclose⟩
      | cons x xs =>
          rcases append_cons_eq_append_cons (List.cons.inj hts).2 with
            ⟨zs, hzs, rfl⟩ | ⟨-, rfl, -⟩ | ⟨zs, -, hzs⟩
          · exact (ihinner hzs).append _
          · simp [hclose] at hk
          · exact ih hzs

/-- Only one parenthesis is the last that is not closed: of two the first one would stand in front
of the second. -/
theorem LastUnclosed.unique {ts : List Token} {opening other : Token}
    (h : LastUnclosed opening ts) (h' : LastUnclosed other ts) : other = opening := by
  obtain ⟨before, after, rfl, hk, -, hunclosed, hclosed⟩ := h
  obtain ⟨before', after', hts, hk', -, hunclosed', hclosed'⟩ := h'
  rcases append_cons_eq_append_cons hts with ⟨zs, -, rfl⟩ | ⟨-, rfl, -⟩ | ⟨zs, -, rfl⟩
  · exact absurd (hclosed' zs opening after rfl hk) hunclosed
  · rfl
  · exact absurd (hclosed zs other after' rfl hk') hunclosed'

/-! ## The stack of the automaton -/

/-- Whether the parentheses opened at the positions, the innermost first, are those of the last
statement that are not closed. -/
inductive Pending : List Position → List Token → Prop
  | outside (ts : List Token) : Pending [] ts
  | inside {opened : List Position} {before inner : List Token} {opening : Token} :
      Pending opened before → opening.kind = .openParen → Balanced inner →
        (∀ t ∈ inner, t.kind ≠ .terminator) →
          Pending (opening.pos :: opened) (before ++ opening :: inner)

theorem Pending.append {opened : List Position} {ts more : List Token} (h : Pending opened ts)
    (hmore : Balanced more) (hterminator : ∀ t ∈ more, t.kind ≠ .terminator) :
    Pending opened (ts ++ more) := by
  cases h with
  | outside => exact .outside _
  | @inside opened before inner opening hbefore hk hinner hinner' =>
      have hall : ∀ t ∈ inner ++ more, t.kind ≠ .terminator :=
        List.forall_mem_append.mpr ⟨hinner', hterminator⟩
      simpa using Pending.inside hbefore hk (hinner.append hmore) hall

theorem Pending.other {opened : List Position} {ts : List Token} {t : Token} (h : Pending opened ts)
    (hopen : t.kind ≠ .openParen) (hclose : t.kind ≠ .closeParen)
    (hterminator : t.kind ≠ .terminator) : Pending opened (ts ++ [t]) :=
  h.append (.singleton hopen hclose) (List.forall_mem_singleton.mpr hterminator)

theorem Pending.close {innermost : Position} {opened : List Position} {ts : List Token} {t : Token}
    (h : Pending (innermost :: opened) ts) (hk : t.kind = .closeParen) :
    Pending opened (ts ++ [t]) := by
  cases h with
  | @inside _ before inner opening hbefore hopening hinner hinner' =>
      have hall : ∀ u ∈ opening :: (inner ++ [t]), u.kind ≠ .terminator := by
        simp only [List.forall_mem_cons, List.forall_mem_append]
        exact ⟨by simp [hopening], hinner', by simp [hk]⟩
      simpa using hbefore.append (.group hopening hinner hk .nil) hall

/-- The innermost parenthesis of the stack is the last one that is not closed. -/
theorem Pending.exists_lastUnclosed {innermost : Position} {opened : List Position}
    {ts : List Token} (h : Pending (innermost :: opened) ts) :
    ∃ opening, LastUnclosed opening ts ∧ opening.pos = innermost := by
  cases h with
  | @inside _ before inner opening _ hk hinner hterminator =>
      refine ⟨opening, ⟨before, inner, rfl, hk, hterminator, hinner.not_closedBy, ?_⟩, rfl⟩
      intro xs t ys hsplit ht
      exact hinner.closedBy hsplit ht

theorem pending_step {s s' : State} {ts : List Token} {t : Token} (h : s.step t = some s')
    (hpending : Pending s.opened ts) : Pending s'.opened (ts ++ [t]) := by
  have hstart {opened : List Position} (hpending : Pending opened ts)
      (h : State.startOperand opened t = some s') : Pending s'.opened (ts ++ [t]) := by
    rcases State.startOperand_cases h with ⟨hk | hk, rfl⟩ | ⟨hk, rfl⟩
    · exact hpending.other (by simp [hk]) (by simp [hk]) (by simp [hk])
    · exact hpending.other (by simp [hk]) (by simp [hk]) (by simp [hk])
    · exact .inside hpending hk .nil (List.forall_mem_nil _)
  have hextend {opened : List Position} (hpending : Pending opened ts)
      (h : State.extendOperand opened t = some s') : Pending s'.opened (ts ++ [t]) := by
    rcases State.extendOperand_cases h with ⟨op, hop, rfl⟩ | ⟨hk, rfl⟩ |
      ⟨innermost, outer, hk, rfl, rfl⟩ | ⟨-, -, rfl⟩
    · have hk := Operator.token_eq_of_operator? hop
      cases op <;> exact hpending.other (by simp [hk, Operator.token])
        (by simp [hk, Operator.token]) (by simp [hk, Operator.token])
    · exact hpending.other (by simp [hk]) (by simp [hk]) (by simp [hk])
    · exact hpending.close hk
    · exact .outside _
  cases s with
  | fresh =>
      rcases State.step_fresh_cases h with ⟨-, rfl⟩ | ⟨-, rfl⟩ | ⟨-, rfl⟩ | ⟨-, hstep⟩
      · exact .outside _
      · exact .outside _
      · exact .outside _
      · exact hstart hpending hstep
  | named =>
      rcases State.step_named_cases h with ⟨-, rfl⟩ | hstep
      · exact .outside _
      · exact hextend hpending hstep
  | operand after opened => exact hstart hpending h
  | operator opened => exact hextend hpending h

theorem pending_run {s s' : State} {ts xs : List Token} (h : s.run xs = some s')
    (hpending : Pending s.opened ts) : Pending s'.opened (ts ++ xs) := by
  induction xs generalizing s ts with
  | nil =>
      cases h
      simpa using hpending
  | cons x xs ih =>
      obtain ⟨m, hm, hrun⟩ := Option.bind_eq_some_iff.mp h
      simpa using ih hrun (pending_step hm hpending)

end Reckoner.Grammar
