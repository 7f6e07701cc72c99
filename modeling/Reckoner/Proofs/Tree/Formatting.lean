import Mathlib.Data.List.DropRight
import Reckoner.Proofs.Tree.Relocation

/-!
# What formatting leaves of a program

Tokens say the same wherever they stand and however long they are; which character ends a statement,
how often it is repeated, and whether it stands before the first or after the last statement does not
matter either. Tokens that say the same spell the same statements, up to positions.
-/

namespace Reckoner

/-- What a token says: its kind and, unless it is a terminator, its value. -/
def Token.content (t : Token) : Token.Kind × Option Value :=
  (t.kind, if t.kind = .terminator then none else some t.value)

def Token.isTerminator (t : Token) : Bool :=
  t.kind == .terminator

namespace Formatting

/-- The tokens with one terminator left of each run of them. -/
def collapse : List Token → List Token
  | t :: u :: ts =>
    if t.isTerminator && u.isTerminator then collapse (u :: ts) else t :: collapse (u :: ts)
  | ts => ts

/-- The tokens with one terminator between statements and none before and after them. -/
def tidy (ts : List Token) : List Token :=
  ((collapse ts).dropWhile Token.isTerminator).rdropWhile Token.isTerminator

/-- What tokens say, apart from their formatting. -/
def gist (ts : List Token) : List (Token.Kind × Option Value) :=
  (tidy ts).map Token.content

end Formatting

namespace Tree

open Formatting

variable {statements : List Tree} {t u : Token} {ts : List Token}
  (hall : ∀ statement ∈ statements, statement.IsStatement)

/-! ## Superfluous terminators -/

theorem kind_of_isTerminator (h : t.isTerminator = true) : t.kind = .terminator :=
  eq_of_beq h

include hall

theorem eq_nil_of_layout_nil (h : Layout statements []) : statements = [] := by
  generalize hts : ([] : List Token) = ts at h
  cases h with
  | nil => rfl
  | skip => cases hts
  | last hspells =>
      subst hts
      exact absurd rfl (statement_ne_nil (hall _ (by simp)) hspells)
  | cons => simp at hts

theorem layout_cons_iff (ht : t.isTerminator = true) :
    Layout statements (t :: ts) ↔ Layout statements ts := by
  have hk := kind_of_isTerminator ht
  constructor
  · intro h
    have hsplit : Layout statements ([] ++ t :: ts) := h
    obtain ⟨us, vs, rfl, hus, hvs⟩ := hsplit.split hk hall
    rw [List.forall_mem_append] at hall
    rwa [eq_nil_of_layout_nil hall.1 hus]
  · exact .skip hk

theorem layout_concat_iff (ht : t.isTerminator = true) :
    Layout statements (ts ++ [t]) ↔ Layout statements ts := by
  have hk := kind_of_isTerminator ht
  constructor
  · intro h
    obtain ⟨us, vs, rfl, hus, hvs⟩ := h.split hk hall
    rw [List.forall_mem_append] at hall
    rwa [eq_nil_of_layout_nil hall.2 hvs, List.append_nil]
  · intro h
    simpa using h.append hk .nil

theorem layout_repeat_iff (ht : t.isTerminator = true) (hu : u.isTerminator = true)
    (before : List Token) :
    Layout statements (before ++ t :: u :: ts) ↔ Layout statements (before ++ u :: ts) := by
  have hk := kind_of_isTerminator ht
  have hk' := kind_of_isTerminator hu
  constructor
  · intro h
    obtain ⟨us, vs, rfl, hus, hvs⟩ := h.split hk hall
    rw [List.forall_mem_append] at hall
    exact hus.append hk' ((layout_cons_iff hall.2 hu).mp hvs)
  · intro h
    obtain ⟨us, vs, rfl, hus, hvs⟩ := h.split hk' hall
    exact hus.append hk (.skip hk' hvs)

theorem layout_collapse_iff (before ts : List Token) :
    Layout statements (before ++ collapse ts) ↔ Layout statements (before ++ ts) := by
  -- What stands before is left open, since a token that is kept becomes a part of it.
  fun_induction collapse ts generalizing before with
  | case1 t u ts hends ih =>
      rw [Bool.and_eq_true] at hends
      rw [ih, layout_repeat_iff hall hends.1 hends.2]
  | case2 t u ts hends ih =>
      have hmove := ih (before ++ [t])
      rwa [List.append_assoc, List.append_assoc] at hmove
  | case3 ts hshort => rfl

theorem layout_dropWhile_iff (ts : List Token) :
    Layout statements (ts.dropWhile Token.isTerminator) ↔ Layout statements ts := by
  induction ts with
  | nil => rfl
  | cons t ts ih =>
      by_cases ht : t.isTerminator = true
      · rw [List.dropWhile_cons_of_pos ht, ih, layout_cons_iff hall ht]
      · rw [List.dropWhile_cons_of_neg ht]

theorem layout_rdropWhile_iff (ts : List Token) :
    Layout statements (ts.rdropWhile Token.isTerminator) ↔ Layout statements ts := by
  induction ts using List.reverseRecOn with
  | nil => rfl
  | append_singleton ts t ih =>
      by_cases ht : t.isTerminator = true
      · rw [List.rdropWhile_concat_pos _ _ _ ht, ih, layout_concat_iff hall ht]
      · rw [List.rdropWhile_concat_neg _ _ _ ht]

/-- Tidying up leaves the statements that the tokens spell. -/
theorem layout_tidy_iff (ts : List Token) :
    Layout statements (tidy ts) ↔ Layout statements ts := by
  rw [tidy, layout_rdropWhile_iff hall, layout_dropWhile_iff hall]
  exact layout_collapse_iff hall [] ts

end Tree

/-! ## Other tokens that say the same -/

theorem Token.mark_of_content {x y : Token} (h : x.content = y.content) :
    y.mark = x.mark.relocate fun _ => y.pos := by
  obtain ⟨hk, hvalue⟩ := Prod.mk.inj h
  simp only [mark, Mark.relocate, Mark.mk.injEq]
  refine ⟨hk.symm, ?_, ?_⟩
  · rw [hk]
    by_cases hk' : y.kind = .number ∨ y.kind = .name
    · have hother : y.kind ≠ .terminator := by
        rintro hk''
        simp [hk''] at hk'
      rw [if_neg (hk ▸ hother), if_neg hother] at hvalue
      rw [if_pos hk', if_pos hk', Option.some.inj hvalue]
    · rw [if_neg hk', if_neg hk']
  · rw [hk]
    split <;> rfl

namespace Tree

/-- The tree without its positions. -/
def unplaced : Tree → Tree :=
  relocate fun _ => .unknown

theorem rank_of_unplaced {t u : Tree} (h : u.unplaced = t.unplaced) : u.rank = t.rank := by
  rw [← rank_relocate (fun _ => .unknown) u, ← rank_relocate (fun _ => .unknown) t]
  exact congrArg rank h

theorem nesting_unplaced (t : Tree) : t.unplaced.nesting = t.nesting := by
  induction t using induction_children with
  | step t ih =>
      cases t with
      | group pos inner => exact congrArg (· + 1) (ih inner (by simp [children]))
      | binary pos op left right =>
          exact congrArg₂ max (ih left (by simp [children])) (ih right (by simp [children]))
      | factorial pos operand => exact ih operand (by simp [children])
      | bare pos body => exact ih body (by simp [children])
      | assign pos id body => exact ih body (by simp [children])
      | print pos body => exact ih body (by simp [children])
      | _ => rfl

theorem Tiered.respell {t : Tree} (ht : t.Tiered) {xs ys : List Token} (h : t.Spells xs)
    (hsame : xs.map Token.content = ys.map Token.content) :
    ∃ u : Tree, u.Tiered ∧ u.Spells ys ∧ u.unplaced = t.unplaced := by
  induction ht generalizing xs ys with
  | number pos value =>
      obtain ⟨x, rfl, hx⟩ := spells_singleton h
      obtain ⟨y, rfl, hy⟩ := List.map_eq_singleton_iff.mp hsame.symm
      refine ⟨.number y.pos value, .number _ _, ?_, rfl⟩
      simp [Spells, marks, Token.mark_of_content hy.symm, hx, Mark.relocate]
  | name pos id =>
      obtain ⟨x, rfl, hx⟩ := spells_singleton h
      obtain ⟨y, rfl, hy⟩ := List.map_eq_singleton_iff.mp hsame.symm
      refine ⟨.name y.pos id, .name _ _, ?_, rfl⟩
      simp [Spells, marks, Token.mark_of_content hy.symm, hx, Mark.relocate]
  | group pos _ ih =>
      obtain ⟨opening, xs, closing, rfl, hopening, hxs, hclosing⟩ := Spells.group_iff.mp h
      rw [List.map_cons, List.map_append] at hsame
      obtain ⟨opening', rest, rfl, ho, hrest⟩ := List.map_eq_cons_iff.mp hsame.symm
      obtain ⟨ys, last, rfl, hys, hlast⟩ := List.map_eq_append_iff.mp hrest
      obtain ⟨closing', rfl, hc⟩ := List.map_eq_singleton_iff.mp hlast
      obtain ⟨u, hu, hspells, hshape⟩ := ih hxs hys.symm
      refine ⟨.group opening'.pos u, .group _ hu, ?_, congrArg (Tree.group .unknown) hshape⟩
      refine Spells.group_iff.mpr ⟨opening', ys, closing', rfl, ?_, hspells, ?_⟩
      · rw [Token.mark_of_content ho.symm, hopening]
        rfl
      · rw [Token.mark_of_content hc.symm, hclosing]
        rfl
  | factorial pos _ hrank ih =>
      obtain ⟨xs, bang, rfl, hxs, hbang⟩ := Spells.factorial_iff.mp h
      rw [List.map_append] at hsame
      obtain ⟨ys, last, rfl, hys, hlast⟩ := List.map_eq_append_iff.mp hsame.symm
      obtain ⟨bang', rfl, hb⟩ := List.map_eq_singleton_iff.mp hlast
      obtain ⟨u, hu, hspells, hshape⟩ := ih hxs hys.symm
      refine ⟨.factorial bang'.pos u, .factorial _ hu ?_, ?_,
        congrArg (Tree.factorial .unknown) hshape⟩
      · rwa [rank_of_unplaced hshape]
      · refine Spells.factorial_iff.mpr ⟨ys, bang', rfl, hspells, ?_⟩
        rw [Token.mark_of_content hb.symm, hbang]
        rfl
  | @binary pos op left right _ _ hleft hright ihl ihr =>
      obtain ⟨xs, sign, xs', rfl, hxs, hsign, hxs'⟩ := Spells.binary_iff.mp h
      rw [List.map_append, List.map_cons] at hsame
      obtain ⟨ys, rest, rfl, hys, hrest⟩ := List.map_eq_append_iff.mp hsame.symm
      obtain ⟨sign', ys', rfl, hs, hys'⟩ := List.map_eq_cons_iff.mp hrest
      obtain ⟨u, hu, hspells, hshape⟩ := ihl hxs hys.symm
      obtain ⟨v, hv, hspells', hshape'⟩ := ihr hxs' hys'.symm
      refine ⟨.binary sign'.pos op u v, .binary _ hu hv ?_ ?_, ?_,
        congrArg₂ (Tree.binary .unknown op) hshape hshape'⟩
      · rwa [rank_of_unplaced hshape]
      · rwa [rank_of_unplaced hshape']
      · refine Spells.binary_iff.mpr ⟨ys, sign', ys', rfl, hspells, ?_, hspells'⟩
        rw [Token.mark_of_content hs.symm, hsign]
        rfl

theorem IsStatement.respell {t : Tree} (ht : t.IsStatement) {xs ys : List Token} (h : t.Spells xs)
    (hsame : xs.map Token.content = ys.map Token.content) :
    ∃ u : Tree, u.IsStatement ∧ u.Spells ys ∧ u.unplaced = t.unplaced := by
  cases t with
  | bare pos body =>
      obtain ⟨u, hu, hspells, hshape⟩ := ht.1.respell h hsame
      exact ⟨.bare u.pos u, ⟨hu, rfl⟩, hspells, congrArg (Tree.bare .unknown) hshape⟩
  | assign pos id body =>
      obtain ⟨target, sign, xs, rfl, htarget, hsign, hxs⟩ := Spells.assign_iff.mp h
      rw [List.map_cons, List.map_cons] at hsame
      obtain ⟨target', rest, rfl, htar, hrest⟩ := List.map_eq_cons_iff.mp hsame.symm
      obtain ⟨sign', ys, rfl, hs, hys⟩ := List.map_eq_cons_iff.mp hrest
      obtain ⟨u, hu, hspells, hshape⟩ := Tiered.respell ht hxs hys.symm
      refine ⟨.assign target'.pos id u, hu, ?_, congrArg (Tree.assign .unknown id) hshape⟩
      refine Spells.assign_iff.mpr ⟨target', sign', ys, rfl, ?_, ?_, hspells⟩
      · rw [Token.mark_of_content htar.symm, htarget]
        rfl
      · rw [Token.mark_of_content hs.symm, hsign]
        rfl
  | print pos body =>
      obtain ⟨keyword, xs, rfl, hkeyword, hxs⟩ := Spells.print_iff.mp h
      rw [List.map_cons] at hsame
      obtain ⟨keyword', ys, rfl, hk, hys⟩ := List.map_eq_cons_iff.mp hsame.symm
      obtain ⟨u, hu, hspells, hshape⟩ := Tiered.respell ht hxs hys.symm
      refine ⟨.print keyword'.pos u, hu, ?_, congrArg (Tree.print .unknown) hshape⟩
      refine Spells.print_iff.mpr ⟨keyword', ys, rfl, ?_, hspells⟩
      rw [Token.mark_of_content hk.symm, hkeyword]
      rfl
  | _ => cases ht

theorem Layout.respell {statements : List Tree} {ts us : List Token} (h : Layout statements ts)
    (hall : ∀ t ∈ statements, t.IsStatement)
    (hsame : ts.map Token.content = us.map Token.content) :
    ∃ others : List Tree, Layout others us ∧ (∀ t ∈ others, t.IsStatement) ∧
      others.map unplaced = statements.map unplaced := by
  induction h generalizing us with
  | nil =>
      rw [List.map_nil, eq_comm, List.map_eq_nil_iff] at hsame
      subst hsame
      exact ⟨[], .nil, by simp, rfl⟩
  | skip hk _ ih =>
      obtain ⟨u, us, rfl, hu, hus⟩ := List.map_eq_cons_iff.mp hsame.symm
      obtain ⟨others, hlayout, hothers, hshape⟩ := ih hall hus.symm
      exact ⟨others, .skip ((congrArg Prod.fst hu).trans hk) hlayout, hothers, hshape⟩
  | last hspells =>
      rw [List.forall_mem_singleton] at hall
      obtain ⟨u, hu, hspells', hshape⟩ := hall.respell hspells hsame
      exact ⟨[u], .last hspells', by simpa using hu, congrArg (fun t => [t]) hshape⟩
  | cons hspells hk _ ih =>
      rw [List.forall_mem_cons] at hall
      rw [List.map_append, List.map_cons] at hsame
      obtain ⟨ys, rest, rfl, hys, hrest⟩ := List.map_eq_append_iff.mp hsame.symm
      obtain ⟨end', us, rfl, he, hus⟩ := List.map_eq_cons_iff.mp hrest
      obtain ⟨u, hu, hspells', hshape⟩ := hall.1.respell hspells hys.symm
      obtain ⟨others, hlayout, hothers, hshape'⟩ := ih hall.2 hus.symm
      exact ⟨u :: others, .cons hspells' ((congrArg Prod.fst he).trans hk) hlayout,
        List.forall_mem_cons.mpr ⟨hu, hothers⟩, congrArg₂ List.cons hshape hshape'⟩

/-- Tokens of the same gist spell statements that differ in nothing but their positions. -/
theorem Layout.reformat {statements : List Tree} {ts us : List Token} (h : Layout statements ts)
    (hall : ∀ t ∈ statements, t.IsStatement) (hgist : Formatting.gist ts = Formatting.gist us) :
    ∃ others : List Tree, Layout others us ∧ (∀ t ∈ others, t.IsStatement) ∧
      others.map unplaced = statements.map unplaced := by
  have htidy := (layout_tidy_iff hall ts).mpr h
  obtain ⟨others, hlayout, hothers, hshape⟩ := htidy.respell hall hgist
  exact ⟨others, (layout_tidy_iff hothers us).mp hlayout, hothers, hshape⟩

end Tree

end Reckoner
