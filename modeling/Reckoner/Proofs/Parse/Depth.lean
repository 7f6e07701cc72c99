import Reckoner.Proofs.Parse.Correctness

/-!
# How deeply parsed trees nest

Parentheses are read by a rule that may open one less of them than the rule around it. What such a
rule gives is therefore a tree whose groups nest less deeply than the number says, and the statements
of a program nest within the limit.
-/

namespace Reckoner

namespace Parse

section Results

variable {α β : Type} {p : α → Prop} {q : β → Prop} {step : Parse α} {next : α → Parse β}

/-- Whether what a step ends in, if it does not fail, has the property. -/
def Yields (p : α → Prop) (step : Parse α) : Prop :=
  ∀ r a s, step r = (.ok a, s) → p a

theorem yields_pure {a : α} (h : p a) : Yields p (pure a : Parse α) := by
  rintro r b s ⟨⟩
  exact h

theorem yields_fail (f : ParseFailure) : Yields p (fail f : Parse α) := by
  rintro r a s ⟨⟩

theorem yields_reject (e : ParseError) : Yields p (reject e : Parse α) :=
  yields_fail (.parse e)

theorem Yields.bind (h : Yields p step) (hnext : ∀ a, p a → Yields q (next a)) :
    Yields q (step >>= next) := by
  intro r b s hs
  rw [bind_apply] at hs
  split at hs
  · next a middle hstep => exact hnext a (h r a middle hstep) middle b s hs
  · cases hs

/-- What a step gives may be left open where it does not show in the end. -/
theorem yields_bind (hnext : ∀ a, Yields q (next a)) : Yields q (step >>= next) :=
  Yields.bind (fun _ _ _ _ => trivial) fun a (_ : True) => hnext a

theorem Yields.ifTooDeep (h : Yields p step) (replacement : ParseFailure) :
    Yields p (ifTooDeep step replacement) := by
  intro r a s hs
  unfold Parse.ifTooDeep at hs
  split at hs
  · cases hs
  · exact h r a s hs

end Results

/-! ## Rules -/

section Rules

variable {n : Nat} {rule nested : Parse Tree}

/-- Whether less than so many groups nest in the trees that a rule gives. -/
def Shallow (n : Nat) (rule : Parse Tree) : Prop :=
  Yields (fun t => t.nesting < n) rule

theorem Shallow.unlessEnd (h : Shallow n rule) (problem : ParseProblem) :
    Shallow n (unlessEnd problem rule) := by
  refine yields_bind fun t => ?_
  split
  · exact yields_reject _
  · exact h

theorem Shallow.chain (h : Shallow n rule) (operators : Token.Kind → Option Operator) (rounds : Nat)
    {left : Tree} (hleft : left.nesting < n) : Shallow n (chain operators rule rounds left) := by
  induction rounds generalizing left with
  | zero => exact yields_pure hleft
  | succ rounds ih =>
      refine yields_bind fun t => ?_
      cases operators t.kind with
      | none => exact yields_pure hleft
      | some op =>
          refine yields_bind fun _ => ?_
          refine (h.unlessEnd _).bind fun right hright => ?_
          apply ih
          exact Nat.max_lt.mpr ⟨hleft, hright⟩

theorem Shallow.tier (h : Shallow n rule) (operators : Token.Kind → Option Operator) :
    Shallow n (tier operators rule) := by
  refine Yields.bind h fun left hleft => ?_
  refine yields_bind fun rounds => ?_
  exact h.chain operators rounds hleft

theorem shallow_bangs (rounds : Nat) {operand : Tree} (h : operand.nesting < n) :
    Shallow n (bangs rounds operand) := by
  induction rounds generalizing operand with
  | zero => exact yields_pure h
  | succ rounds ih =>
      refine yields_bind fun t => ?_
      cases t with
      | none => exact yields_pure h
      | some bang =>
          apply ih
          exact h

theorem Shallow.group (h : Shallow n nested) : Shallow (n + 1) (group nested) := by
  refine yields_bind fun opening => ?_
  refine Yields.bind h fun inner hinner => ?_
  refine yields_bind fun t => ?_
  split
  · exact yields_pure (Nat.succ_lt_succ hinner)
  · refine yields_bind fun u => ?_
    split <;> exact yields_reject _

theorem Shallow.primary (h : Shallow n nested) : Shallow (n + 1) (primary nested) := by
  refine yields_bind fun t => ?_
  split
  · refine yields_bind fun _ => ?_
    split
    · exact yields_pure (Nat.succ_pos n)
    · exact yields_fail _
  · refine yields_bind fun _ => ?_
    exact yields_pure (Nat.succ_pos n)
  · exact h.group
  · exact yields_reject _

theorem Shallow.suffixed (h : Shallow n nested) : Shallow (n + 1) (suffixed nested) := by
  refine h.primary.bind fun operand hoperand => ?_
  refine yields_bind fun rounds => ?_
  exact shallow_bangs rounds hoperand

theorem shallow_within (n : Nat) : Shallow n (within n) := by
  induction n with
  | zero => exact yields_fail _
  | succ n ih => exact ((ih.suffixed.tier _).tier _).tier _

end Rules

/-! ## Statements -/

theorem shallow_statement : Shallow (nestingLimit + 1) statement := by
  have hexpression : Shallow (nestingLimit + 1) expression := shallow_within _
  have hbare : Shallow (nestingLimit + 1) bare :=
    Yields.bind hexpression fun body hbody => yields_pure hbody
  refine yields_bind fun t => ?_
  split
  · refine yields_bind fun keyword => ?_
    exact (hexpression.unlessEnd _).bind fun body hbody => yields_pure hbody
  · refine yields_bind fun following => ?_
    split
    · refine yields_bind fun target => ?_
      refine yields_bind fun sign => ?_
      exact (hexpression.unlessEnd _).bind fun body hbody => yields_pure hbody
    · exact hbare
  · exact hbare

theorem yields_statements (n : Nat) :
    Yields (fun ts => ∀ t ∈ ts, t.nesting ≤ nestingLimit) (statements n) := by
  induction n with
  | zero => exact yields_pure nofun
  | succ n ih =>
      refine yields_bind fun rounds => ?_
      refine yields_bind fun _ => ?_
      refine yields_bind fun start => ?_
      split
      · exact yields_pure nofun
      · refine (Yields.ifTooDeep shallow_statement _).bind fun first hfirst => ?_
        have hrest : Yields (fun ts => ∀ t ∈ ts, t.nesting ≤ nestingLimit)
            (do return first :: (← statements n)) := by
          refine ih.bind fun others hothers => ?_
          exact yields_pure (List.forall_mem_cons.mpr ⟨Nat.le_of_lt_succ hfirst, hothers⟩)
        refine yields_bind fun _ => ?_
        refine yields_bind fun following => ?_
        split
        · exact yields_bind fun _ => hrest
        · exact hrest

end Parse

/-- The groups of a parsed statement nest within the limit. -/
theorem nesting_le_of_parseSource {source : String} {statements : List Tree}
    (h : (parseSource source).1 = .ok statements) :
    ∀ t ∈ statements, t.nesting ≤ Parse.nestingLimit := by
  have hprogram : Parse.program (Reader.ofSource source) =
      (.ok statements, (Parse.program (Reader.ofSource source)).2) :=
    Prod.ext h rfl
  exact Parse.yields_bind Parse.yields_statements _ _ _ hprogram

end Reckoner
