import Reckoner.Proofs.Grammar.Derivation
import Reckoner.Tree.Basic

/-!
# The grammar read from left to right

A state says what may come next after some tokens of a program. The only unbounded part of it is
the stack of parentheses that are still open. The automaton accepts exactly the grammatical
sequences of tokens, and it gets through a sequence exactly if some grammatical sequence starts
with it: the first token that has no step is the first one that no program can have there.
-/

namespace Reckoner.Grammar

open Computability
open Token (Kind)

/-- What may come next. -/
inductive State
  -- Between statements.
  | fresh
  -- After a name that starts a statement.
  | named
  -- An operand has to follow the token; the parentheses opened at the positions are open, the
  -- innermost first.
  | operand (after : Token) (opened : List Position)
  -- An operand has ended.
  | operator (opened : List Position)

/-- The operator that a token of the kind stands for. -/
def operator? : Kind → Option Operator
  | .plus => some .plus
  | .minus => some .minus
  | .star => some .times
  | .slash => some .over
  | .caret => some .power
  | _ => none

namespace State

/-- The step where an operand has to follow. -/
def startOperand (opened : List Position) (t : Token) : Option State :=
  match t.kind with
  | .number => some (.operator opened)
  | .name => some (.operator opened)
  | .openParen => some (.operand t (t.pos :: opened))
  | _ => none

/-- The step where an operand has ended. -/
def extendOperand (opened : List Position) (t : Token) : Option State :=
  match operator? t.kind, t.kind, opened with
  | some _, _, _ => some (.operand t opened)
  | none, .bang, _ => some (.operator opened)
  | none, .closeParen, _ :: outer => some (.operator outer)
  | none, .terminator, [] => some .fresh
  | none, _, _ => none

def step : State → Token → Option State
  | .fresh, t =>
    match t.kind with
    | .terminator => some .fresh
    | .print => some (.operand t [])
    | .name => some .named
    | _ => startOperand [] t
  | .named, t => if t.kind = .assign then some (.operand t []) else extendOperand [] t
  | .operand _ opened, t => startOperand opened t
  | .operator opened, t => extendOperand opened t

def run (s : State) : List Token → Option State
  | [] => some s
  | t :: ts => (step s t).bind fun s' => run s' ts

def complete : State → Bool
  | .fresh => true
  | .named => true
  | .operand _ _ => false
  | .operator opened => opened.isEmpty

def opened : State → List Position
  | .fresh => []
  | .named => []
  | .operand _ opened => opened
  | .operator opened => opened

def Ended (s : State) : Prop :=
  s = .operator [] ∨ s = .named

end State

/-- Whether tokens are a program, seen by their kinds. The end of the input is not one of them and
may be seen as often as the rules ask for it. -/
def Grammatical (ts : List Token) : Prop :=
  (∀ t ∈ ts, t.kind ≠ .endOfInput) ∧
    ∃ n, Derives (.rule .program) (ts.map Token.kind ++ List.replicate n .endOfInput)

/-- Whether a program starts with the tokens. -/
def Viable (ts : List Token) : Prop :=
  ∃ more, Grammatical (ts ++ more)

/-! ## Runs -/

namespace State

@[simp] theorem run_nil (s : State) : run s [] = some s := rfl

@[simp] theorem run_cons (s : State) (t : Token) (ts : List Token) :
    run s (t :: ts) = (step s t).bind fun s' => run s' ts := rfl

theorem run_append (s : State) (xs ys : List Token) :
    run s (xs ++ ys) = (run s xs).bind fun s' => run s' ys := by
  induction xs generalizing s with
  | nil => rfl
  | cons t xs ih =>
      cases h : step s t with
      | none => simp [h]
      | some s' => simpa [h] using ih s'

theorem run_trans {s s' s'' : State} {xs ys : List Token} (hx : run s xs = some s')
    (hy : run s' ys = some s'') : run s (xs ++ ys) = some s'' := by
  rw [run_append, hx]
  exact hy

theorem exists_run_of_append {s s' : State} {xs ys : List Token}
    (h : run s (xs ++ ys) = some s') : ∃ m, run s xs = some m ∧ run m ys = some s' := by
  rw [run_append] at h
  exact Option.bind_eq_some_iff.mp h

theorem startOperand_cases {opened : List Position} {t : Token} {s : State}
    (h : startOperand opened t = some s) :
    ((t.kind = .number ∨ t.kind = .name) ∧ s = .operator opened) ∨
      (t.kind = .openParen ∧ s = .operand t (t.pos :: opened)) := by
  unfold startOperand at h
  split at h
  · next hk => exact Or.inl ⟨Or.inl hk, (Option.some.inj h).symm⟩
  · next hk => exact Or.inl ⟨Or.inr hk, (Option.some.inj h).symm⟩
  · next hk => exact Or.inr ⟨hk, (Option.some.inj h).symm⟩
  · cases h

theorem extendOperand_cases {opened : List Position} {t : Token} {s : State}
    (h : extendOperand opened t = some s) :
    (∃ op, operator? t.kind = some op ∧ s = .operand t opened) ∨
      (t.kind = .bang ∧ s = .operator opened) ∨
      (∃ innermost outer, t.kind = .closeParen ∧ opened = innermost :: outer ∧
        s = .operator outer) ∨
      (t.kind = .terminator ∧ opened = [] ∧ s = .fresh) := by
  unfold extendOperand at h
  split at h
  · next hop => exact Or.inl ⟨_, hop, (Option.some.inj h).symm⟩
  · next hk => exact Or.inr (Or.inl ⟨hk, (Option.some.inj h).symm⟩)
  · next hk =>
    exact Or.inr (Or.inr (Or.inl ⟨_, _, hk, rfl, (Option.some.inj h).symm⟩))
  · next hk => exact Or.inr (Or.inr (Or.inr ⟨hk, rfl, (Option.some.inj h).symm⟩))
  · cases h

theorem step_fresh_cases {t : Token} {s : State} (h : step .fresh t = some s) :
    (t.kind = .terminator ∧ s = .fresh) ∨ (t.kind = .print ∧ s = .operand t []) ∨
      (t.kind = .name ∧ s = .named) ∨ (t.kind ≠ .name ∧ startOperand [] t = some s) := by
  simp only [step] at h
  split at h
  · next hk => exact Or.inl ⟨hk, (Option.some.inj h).symm⟩
  · next hk => exact Or.inr (Or.inl ⟨hk, (Option.some.inj h).symm⟩)
  · next hk => exact Or.inr (Or.inr (Or.inl ⟨hk, (Option.some.inj h).symm⟩))
  · next hk => exact Or.inr (Or.inr (Or.inr ⟨hk, h⟩))

theorem step_named_cases {t : Token} {s : State} (h : step .named t = some s) :
    (t.kind = .assign ∧ s = .operand t []) ∨ extendOperand [] t = some s := by
  simp only [step] at h
  split at h
  · next hk => exact Or.inl ⟨hk, (Option.some.inj h).symm⟩
  · exact Or.inr h

theorem step_operator {t : Token} {op : Operator} (h : operator? t.kind = some op)
    (opened : List Position) : step (.operator opened) t = some (.operand t opened) := by
  simp [step, extendOperand, h]

theorem step_bang {t : Token} (h : t.kind = .bang) (opened : List Position) :
    step (.operator opened) t = some (.operator opened) := by
  simp [step, extendOperand, h, operator?]

theorem step_close {t : Token} (h : t.kind = .closeParen) (innermost : Position)
    (opened : List Position) :
    step (.operator (innermost :: opened)) t = some (.operator opened) := by
  simp [step, extendOperand, h, operator?]

theorem step_terminator {t : Token} (h : t.kind = .terminator) :
    step (.operator []) t = some .fresh := by
  simp [step, extendOperand, h, operator?]

theorem step_endOfInput {t : Token} (h : t.kind = .endOfInput) (s : State) : step s t = none := by
  cases s <;> simp [step, startOperand, extendOperand, h, operator?]

theorem not_endOfInput_of_run {s s' : State} {ts : List Token} (h : run s ts = some s') :
    ∀ t ∈ ts, t.kind ≠ .endOfInput := by
  intro t ht hEnd
  obtain ⟨xs, ys, rfl⟩ := List.append_of_mem ht
  obtain ⟨m, -, hm⟩ := exists_run_of_append h
  simp [step_endOfInput hEnd] at hm

theorem step_named {s : State} {t : Token} (h : step (.operator []) t = some s) :
    step .named t = some s := by
  have hne : t.kind ≠ .assign := by
    intro hk
    simp [step, extendOperand, hk, operator?] at h
  simpa [step, hne] using h

theorem Ended.complete {s : State} (h : s.Ended) : s.complete = true := by
  rcases h with rfl | rfl <;> rfl

theorem Ended.step {s : State} (h : s.Ended) {t : Token} (ht : t.kind = .terminator) :
    s.step t = some .fresh := by
  rcases h with rfl | rfl
  · exact step_terminator ht
  · exact step_named (step_terminator ht)

/-- The start of a statement lets pass what starts an operand. Only the state after a single name
differs, because the name may be the target of an assignment. -/
theorem run_fresh_of_run_operand {after : Token} {s : State} {t : Token} {ts : List Token}
    (h : run (.operand after []) (t :: ts) = some s) :
    run .fresh (t :: ts) = some s ∨
      (ts = [] ∧ s = .operator [] ∧ run .fresh (t :: ts) = some .named) := by
  obtain ⟨m, hm, hs⟩ := Option.bind_eq_some_iff.mp h
  by_cases hname : t.kind = .name
  · have hfresh : step .fresh t = some .named := by simp [step, hname]
    have hm' : m = .operator [] := by simpa [step, startOperand, hname] using hm.symm
    subst hm'
    cases ts with
    | nil =>
        refine Or.inr ⟨rfl, ?_, by simp [hfresh]⟩
        simpa using hs.symm
    | cons u us =>
        obtain ⟨m', hm', hs'⟩ := Option.bind_eq_some_iff.mp hs
        apply Or.inl
        rw [run_cons, hfresh, Option.bind_some, run_cons, step_named hm']
        exact hs'
  · apply Or.inl
    have hfresh : step .fresh t = some m := by
      cases hk : t.kind <;> simp_all [step, startOperand]
    rw [run_cons, hfresh]
    exact hs

end State

end Reckoner.Grammar
