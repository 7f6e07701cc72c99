import Reckoner.Proofs.Tree.Unambiguity

/-!
# Nesting

The number of parentheses that are open at once is counted along the tokens; a terminator ends a
statement and all that is open in it. Where the automaton gets through, this is the height of its
stack, and on the tokens of a tree it is the number of groups around a place of the tree.
-/

namespace Reckoner

namespace Grammar

def openAfter (count : Nat) (t : Token) : Nat :=
  match t.kind with
  | .openParen => count + 1
  | .closeParen => count - 1
  | .terminator => 0
  | _ => count

/-- The largest number of parentheses that are open at once, starting with some that are open. -/
def peak (count : Nat) : List Token → Nat
  | [] => count
  | t :: ts => max count (peak (openAfter count t) ts)

/-- The largest number of parentheses that are open at once. -/
def nesting (ts : List Token) : Nat :=
  peak 0 ts

theorem openAfter_operator {t : Token} {op : Operator} (h : operator? t.kind = some op)
    (count : Nat) : openAfter count t = count := by
  have hk := Operator.token_eq_of_operator? h
  cases op <;> simp [openAfter, hk, Operator.token]

theorem le_peak (count : Nat) (ts : List Token) : count ≤ peak count ts := by
  cases ts with
  | nil => exact Nat.le_refl count
  | cons t ts => exact Nat.le_max_left count _

theorem peak_append (count : Nat) (xs ys : List Token) :
    peak count (xs ++ ys) = max (peak count xs) (peak (xs.foldl openAfter count) ys) := by
  induction xs generalizing count with
  | nil => exact (Nat.max_eq_right (le_peak count ys)).symm
  | cons t xs ih => simp only [List.cons_append, peak, List.foldl_cons, ih, Nat.max_assoc]

theorem foldl_openAfter_le_peak (count : Nat) (ts : List Token) :
    ts.foldl openAfter count ≤ peak count ts := by
  have h := peak_append count ts []
  rw [List.append_nil, peak] at h
  omega

theorem length_opened_step {s s' : State} {t : Token} (h : s.step t = some s') :
    s'.opened.length = openAfter s.opened.length t := by
  have hstart {opened : List Position} (h : State.startOperand opened t = some s') :
      s'.opened.length = openAfter opened.length t := by
    rcases State.startOperand_cases h with ⟨hk | hk, rfl⟩ | ⟨hk, rfl⟩ <;>
      simp [State.opened, openAfter, hk]
  have hextend {opened : List Position} (h : State.extendOperand opened t = some s') :
      s'.opened.length = openAfter opened.length t := by
    rcases State.extendOperand_cases h with ⟨op, hop, rfl⟩ | ⟨hk, rfl⟩ | ⟨_, _, hk, rfl, rfl⟩ |
      ⟨hk, rfl, rfl⟩
    · exact (openAfter_operator hop _).symm
    all_goals simp [State.opened, openAfter, hk]
  cases s with
  | fresh =>
      rcases State.step_fresh_cases h with ⟨hk, rfl⟩ | ⟨hk, rfl⟩ | ⟨hk, rfl⟩ | ⟨-, hstep⟩
      · simp [State.opened, openAfter, hk]
      · simp [State.opened, openAfter, hk]
      · simp [State.opened, openAfter, hk]
      · exact hstart hstep
  | named =>
      rcases State.step_named_cases h with ⟨hk, rfl⟩ | hstep
      · simp [State.opened, openAfter, hk]
      · exact hextend hstep
  | operand after opened => exact hstart h
  | operator opened => exact hextend h

theorem length_opened_run {s s' : State} {ts : List Token} (h : s.run ts = some s') :
    s'.opened.length = ts.foldl openAfter s.opened.length := by
  induction ts generalizing s with
  | nil =>
      cases h
      rfl
  | cons t ts ih =>
      obtain ⟨m, hm, hrun⟩ := Option.bind_eq_some_iff.mp h
      rw [List.foldl_cons, ← length_opened_step hm]
      exact ih hrun

/-- The stack of the automaton never gets higher than the nesting of the tokens. -/
theorem length_opened_le_nesting {s : State} {xs ys : List Token}
    (h : State.run .fresh xs = some s) : s.opened.length ≤ nesting (xs ++ ys) := by
  rw [length_opened_run h, nesting, peak_append]
  exact (le_peak _ ys).trans (Nat.le_max_right _ _)

end Grammar

namespace Tree

open Grammar

/-- The largest number of groups around a place of the tree. -/
def nesting : Tree → Nat
  | .group _ inner => inner.nesting + 1
  | .binary _ _ left right => max left.nesting right.nesting
  | .factorial _ operand => operand.nesting
  | .bare _ body | .assign _ _ body | .print _ body => body.nesting
  | _ => 0

theorem foldl_openAfter_of_spells {t : Tree} (ht : t.Tiered) {ts : List Token} (h : t.Spells ts)
    (count : Nat) : ts.foldl openAfter count = count := by
  have hrun := run_of_spells ht h (Token.ofValue .print .absent .unknown)
    (List.replicate count .unknown)
  have hlen := length_opened_run hrun
  simpa [State.opened] using hlen.symm

/-- The tokens of an expression open as many parentheses at once as its groups nest. -/
theorem peak_of_spells {t : Tree} (ht : t.Tiered) {ts : List Token} (h : t.Spells ts)
    (count : Nat) : peak count ts = count + t.nesting := by
  induction ht generalizing ts count with
  | number pos value =>
      obtain ⟨tok, rfl, htok⟩ := spells_singleton h
      have hk : tok.kind = .number := kind_of_mark htok
      simp [peak, openAfter, hk, nesting]
  | name pos id =>
      obtain ⟨tok, rfl, htok⟩ := spells_singleton h
      have hk : tok.kind = .name := kind_of_mark htok
      simp [peak, openAfter, hk, nesting]
  | group pos hinner ih =>
      obtain ⟨opening, xs, closing, rfl, hopening, hxs, hclosing⟩ := Spells.group_iff.mp h
      have hk : opening.kind = .openParen := kind_of_mark hopening
      have hk' : closing.kind = .closeParen := kind_of_mark hclosing
      have hopen : openAfter count opening = count + 1 := by simp [openAfter, hk]
      have hclose : openAfter (count + 1) closing = count := by simp [openAfter, hk']
      rw [peak, hopen, peak_append, foldl_openAfter_of_spells hinner hxs, ih hxs]
      simp only [peak, hclose, nesting]
      omega
  | factorial pos hoperand _ ih =>
      obtain ⟨xs, bang, rfl, hxs, hbang⟩ := Spells.factorial_iff.mp h
      have hk : bang.kind = .bang := kind_of_mark hbang
      have hsame : openAfter count bang = count := by simp [openAfter, hk]
      rw [peak_append, foldl_openAfter_of_spells hoperand hxs, ih hxs]
      simp only [peak, hsame, nesting]
      omega
  | binary pos hleft hright _ _ ihl ihr =>
      obtain ⟨xs, sign, ys, rfl, hxs, hsign, hys⟩ := Spells.binary_iff.mp h
      have hsame := openAfter_operator (operator?_of_mark hsign) count
      rw [peak_append, foldl_openAfter_of_spells hleft hxs, ihl hxs, peak, hsame, ihr hys]
      simp only [nesting]
      omega

theorem peak_of_statement {t : Tree} (ht : t.IsStatement) {ts : List Token} (h : t.Spells ts) :
    peak 0 ts = t.nesting := by
  cases t with
  | bare pos body => simpa [nesting] using peak_of_spells ht.1 h 0
  | assign pos id body =>
      obtain ⟨target, sign, xs, rfl, htarget, hsign, hxs⟩ := Spells.assign_iff.mp h
      have hk : target.kind = .name := kind_of_mark htarget
      have hk' : sign.kind = .assign := kind_of_mark hsign
      simp [peak, openAfter, hk, hk', peak_of_spells ht hxs, nesting]
  | print pos body =>
      obtain ⟨keyword, xs, rfl, hkeyword, hxs⟩ := Spells.print_iff.mp h
      have hk : keyword.kind = .print := kind_of_mark hkeyword
      simp [peak, openAfter, hk, peak_of_spells ht hxs, nesting]
  | _ => cases ht

theorem nesting_of_layout {statements : List Tree} {ts : List Token} (h : Layout statements ts)
    {limit : Nat} (hall : ∀ t ∈ statements, t.IsStatement ∧ t.nesting ≤ limit) :
    Grammar.nesting ts ≤ limit := by
  unfold Grammar.nesting
  induction h with
  | nil => exact Nat.zero_le limit
  | skip hk _ ih => simpa [peak, openAfter, hk] using ih hall
  | @last statement ts hspells =>
      obtain ⟨hst, hle⟩ := hall statement (by simp)
      rwa [peak_of_statement hst hspells]
  | @cons statement xs t statements ts hspells hk _ ih =>
      obtain ⟨hst, hle⟩ := hall statement (by simp)
      have hrest := ih fun u hu => hall u (by simp [hu])
      obtain ⟨s, hrun, hended⟩ := run_of_statement hst hspells
      have hclosed : xs.foldl openAfter 0 = 0 := by
        have hlen := length_opened_run hrun
        rcases hended with rfl | rfl <;> exact hlen.symm
      have hreset : openAfter 0 t = 0 := by simp [openAfter, hk]
      rw [peak_append, peak_of_statement hst hspells, hclosed, peak, hreset]
      omega

end Tree

end Reckoner
