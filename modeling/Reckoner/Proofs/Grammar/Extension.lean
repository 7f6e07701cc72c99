import Reckoner.Proofs.Grammar.Acceptance
import Reckoner.Proofs.Tree.Unambiguity

/-!
# What extends an expression

The tiers of the grammar are counted from the loosest one. Whatever a tier derives is the sequence
of kinds of a tree whose root binds at least as tightly as the tier. Where a derivable sequence goes
on after an operand, the next kind therefore binds as tightly as the tier: it is an operator of this
tier or of a tighter one, or a factorial mark.
-/

namespace Reckoner.Grammar

open Computability
open Token (Kind)

/-- The tier of a rule for expressions. -/
def Nonterminal.level : Nonterminal → Nat
  | .term => 1
  | .factor => 2
  | .suffixed => 3
  | .primary => 4
  | _ => 0

/-! ## Kinds of trees -/

/-- The kinds of the trees whose root binds at least so tightly. -/
def shapes (k : Nat) : Language Kind :=
  {w | ∃ t : Tree, t.Tiered ∧ k ≤ t.rank ∧ t.marks.map Mark.kind = w}

theorem shapes_mono {j k : Nat} (h : j ≤ k) : shapes k ≤ shapes j := by
  rintro w ⟨t, ht, hk, hw⟩
  exact ⟨t, ht, h.trans hk, hw⟩

theorem shapes_mul_bang_le : shapes 3 * single .bang ≤ shapes 3 := by
  intro w hw
  obtain ⟨u, ⟨t, ht, hk, rfl⟩, v, hv, rfl⟩ := Language.mem_mul.mp hw
  rw [mem_single.mp hv]
  exact ⟨.factorial .unknown t, .factorial _ ht hk, Nat.le_refl 3, by simp [Tree.marks]⟩

theorem shapes_mul_operator_le {operators : Language Kind} {k : Nat}
    (h : ∀ w ∈ operators, ∃ op : Operator, w = [op.token] ∧ op.rank = k) :
    shapes k * (operators * shapes (k + 1)) ≤ shapes k := by
  intro w hw
  obtain ⟨u, ⟨left, hleft, hl, rfl⟩, v, hv, rfl⟩ := Language.mem_mul.mp hw
  obtain ⟨o, ho, r, ⟨right, hright, hr, rfl⟩, rfl⟩ := Language.mem_mul.mp hv
  obtain ⟨op, rfl, rfl⟩ := h o ho
  refine ⟨.binary .unknown op left right, .binary _ hleft hright hl hr, Nat.le_refl _, ?_⟩
  simp [Tree.marks]

theorem group_le_shapes : single .openParen * (shapes 0 * single .closeParen) ≤ shapes 4 := by
  intro w hw
  obtain ⟨u, hu, v, hv, rfl⟩ := Language.mem_mul.mp hw
  obtain ⟨i, ⟨t, ht, -, rfl⟩, c, hc, rfl⟩ := Language.mem_mul.mp hv
  rw [mem_single.mp hu, mem_single.mp hc]
  exact ⟨.group .unknown t, .group _ ht, Nat.le_refl 4, by simp [Tree.marks]⟩

theorem number_le_shapes : single .number ≤ shapes 4 := by
  intro w hw
  rw [mem_single.mp hw]
  exact ⟨.number .unknown 0, .number _ _, Nat.le_refl 4, rfl⟩

theorem name_le_shapes : single .name ≤ shapes 4 := by
  intro w hw
  rw [mem_single.mp hw]
  exact ⟨.name .unknown "", .name _ _, Nat.le_refl 4, rfl⟩

/-- The kinds of trees for the rules of expressions, and everything for the others. -/
def shaped : Nonterminal → Language Kind
  | .program => ⊤
  | .statement => ⊤
  | name => shapes name.level

theorem joined_shapes_le {operand : Nonterminal} {operators : Form} {k : Nat}
    (hoperand : shaped operand = shapes (k + 1))
    (h : ∀ w ∈ operators.language shaped, ∃ op : Operator, w = [op.token] ∧ op.rank = k) :
    (Form.joined operand operators).language shaped ≤ shapes k := by
  simp only [Form.joined, Form.language, hoperand]
  calc shapes (k + 1) * (operators.language shaped * shapes (k + 1))∗
      ≤ shapes k * (operators.language shaped * shapes (k + 1))∗ :=
        mul_le_mul_left (shapes_mono (Nat.le_succ k)) _
    _ ≤ shapes k := mul_kstar_le_self (shapes_mul_operator_le h)

theorem mem_alt_tokens {kind kind' : Kind} {w : List Kind}
    (h : w ∈ (Form.alt (.token kind) (.token kind')).language shaped) : w = [kind] ∨ w = [kind'] :=
  (Language.mem_add ..).mp h

theorem closed_shaped : Closed shaped := by
  intro name
  cases name with
  | program => exact le_top
  | statement => exact le_top
  | expression =>
      refine joined_shapes_le rfl fun w hw => ?_
      rcases mem_alt_tokens hw with rfl | rfl
      · exact ⟨.plus, rfl, rfl⟩
      · exact ⟨.minus, rfl, rfl⟩
  | term =>
      refine joined_shapes_le rfl fun w hw => ?_
      rcases mem_alt_tokens hw with rfl | rfl
      · exact ⟨.times, rfl, rfl⟩
      · exact ⟨.over, rfl, rfl⟩
  | factor =>
      refine joined_shapes_le rfl fun w hw => ?_
      rw [mem_single.mp hw]
      exact ⟨.power, rfl, rfl⟩
  | suffixed =>
      calc shapes 4 * (single .bang)∗ ≤ shapes 3 * (single .bang)∗ :=
            mul_le_mul_left (shapes_mono (Nat.le_succ 3)) _
        _ ≤ shapes 3 := mul_kstar_le_self shapes_mul_bang_le
  | primary => exact add_le number_le_shapes (add_le name_le_shapes group_le_shapes)

/-! ## What may follow -/

theorem exists_spelling {t : Tree} (ht : t.Tiered) : ∃ ts, t.Spells ts := by
  have hmarks : t.marks ∈ Set.range (List.map Token.mark) := by
    rw [Set.range_list_map]
    intro m hm
    obtain ⟨tok, -, hmark⟩ := Tree.exists_token_of_mem_marks ht hm
    exact ⟨tok, hmark⟩
  exact hmarks

/-- Where a derivable sequence goes on after an operand, it goes on with a kind that binds as
tightly as the tier. -/
theorem exists_rank_of_derives {name : Nonterminal} (hname : shaped name = shapes name.level)
    {v w : List Kind} {kind : Kind} (hv : v ∈ crossing)
    (h : Derives (.rule name) (v ++ kind :: w)) :
    ∃ b, kind.rank? = some b ∧ name.level ≤ b := by
  have hmem : v ++ kind :: w ∈ shaped name := h.mem_language closed_shaped
  rw [hname] at hmem
  obtain ⟨t, ht, hk, hmarks⟩ := hmem
  obtain ⟨ts, hts⟩ := exists_spelling ht
  have hkinds : ts.map Token.kind = v ++ kind :: w := by
    rw [← hmarks, ← hts, List.map_map]
    rfl
  obtain ⟨us, rest, rfl, hus, hrest⟩ := List.map_eq_append_iff.mp hkinds
  obtain ⟨u, vs, rfl, rfl, -⟩ := List.map_eq_cons_iff.mp hrest
  have hrun := hv us hus (Token.ofValue .print .absent .unknown) []
  obtain ⟨b, hb, hle⟩ := (Tree.run_beginning ht hts hrun).2 rfl
  exact ⟨b, hb, hk.trans hle⟩

end Reckoner.Grammar
