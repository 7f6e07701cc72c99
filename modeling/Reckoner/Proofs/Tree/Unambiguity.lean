import Reckoner.Proofs.Tree.Spelling

/-!
# Unambiguity

The tokens of a tree that respects the tiers take the automaton across an operand. A prefix of them
that is itself an operand can only be followed by a token that binds at least as tightly as the
root. This bounds the place of the root from both sides, so that the tokens determine the tree.
-/

namespace Reckoner

open Grammar

/-- Two ways to single out an element of one list. -/
theorem append_cons_eq_append_cons {α : Type} {xs ys us vs : List α} {x u : α}
    (h : xs ++ x :: ys = us ++ u :: vs) :
    (∃ zs, xs = us ++ u :: zs ∧ vs = zs ++ x :: ys) ∨ (xs = us ∧ x = u ∧ ys = vs) ∨
      (∃ zs, us = xs ++ x :: zs ∧ ys = zs ++ u :: vs) := by
  rcases List.append_eq_append_iff.mp h with ⟨zs, hus, hrest⟩ | ⟨zs, hxs, hrest⟩
  · cases zs with
    | nil =>
        simp only [List.nil_append, List.cons.injEq] at hrest
        exact Or.inr (Or.inl ⟨by simpa using hus.symm, hrest⟩)
    | cons z zs =>
        simp only [List.cons_append, List.cons.injEq] at hrest
        exact Or.inr (Or.inr ⟨zs, hrest.1 ▸ hus, hrest.2⟩)
  · cases zs with
    | nil =>
        simp only [List.nil_append, List.cons.injEq] at hrest
        exact Or.inr (Or.inl ⟨by simpa using hxs, hrest.1.symm, hrest.2.symm⟩)
    | cons z zs =>
        simp only [List.cons_append, List.cons.injEq] at hrest
        exact Or.inl ⟨zs, hrest.1 ▸ hxs, hrest.2⟩

namespace Tree

/-! ## Crossing an operand -/

theorem kind_of_mark {t : Token} {m : Mark} (h : t.mark = m) : t.kind = m.kind :=
  congrArg Mark.kind h

theorem operator?_of_mark {t : Token} {op : Operator} {pos : Position}
    (h : t.mark = ⟨op.token, none, some pos⟩) : operator? t.kind = some op := by
  rw [kind_of_mark h]
  exact op.operator?_token

theorem step_opening {t : Token} {pos : Position}
    (h : t.mark = ⟨.openParen, none, some pos⟩) (after : Token) (opened : List Position) :
    State.step (.operand after opened) t = some (.operand t (t.pos :: opened)) := by
  have hk : t.kind = .openParen := kind_of_mark h
  simp [State.step, State.startOperand, hk]

/-- The tokens of an expression cross an operand, whatever they follow. -/
theorem run_of_spells {t : Tree} (ht : t.Tiered) {ts : List Token} (h : t.Spells ts)
    (after : Token) (opened : List Position) :
    State.run (.operand after opened) ts = some (.operator opened) := by
  induction ht generalizing ts after opened with
  | number pos value =>
      obtain ⟨tok, rfl, htok⟩ := spells_singleton h
      have hk : tok.kind = .number := kind_of_mark htok
      simp [State.step, State.startOperand, hk]
  | name pos id =>
      obtain ⟨tok, rfl, htok⟩ := spells_singleton h
      have hk : tok.kind = .name := kind_of_mark htok
      simp [State.step, State.startOperand, hk]
  | group pos _ ih =>
      obtain ⟨opening, xs, closing, rfl, hopening, hxs, hclosing⟩ := Spells.group_iff.mp h
      rw [State.run_cons, step_opening hopening, Option.bind_some]
      apply State.run_trans (ih hxs opening (opening.pos :: opened))
      have hclose : closing.kind = .closeParen := kind_of_mark hclosing
      simp [State.step_close hclose]
  | factorial pos _ _ ih =>
      obtain ⟨xs, bang, rfl, hxs, hbang⟩ := Spells.factorial_iff.mp h
      apply State.run_trans (ih hxs after opened)
      have hk : bang.kind = .bang := kind_of_mark hbang
      simp [State.step_bang hk]
  | binary pos _ _ _ _ ihl ihr =>
      obtain ⟨xs, sign, ys, rfl, hxs, hsign, hys⟩ := Spells.binary_iff.mp h
      apply State.run_trans (ihl hxs after opened)
      rw [State.run_cons, State.step_operator (operator?_of_mark hsign), Option.bind_some]
      exact ihr hys sign opened

/-- A proper prefix of the tokens of an expression closes no parenthesis from outside. If it is an
operand itself, the token after it binds at least as tightly as the root. -/
theorem run_beginning {t : Tree} (ht : t.Tiered) {us vs : List Token} {u : Token}
    (h : t.Spells (us ++ u :: vs)) {after : Token} {opened : List Position} {s : State}
    (hrun : State.run (.operand after opened) us = some s) :
    opened <:+ s.opened ∧
      (s = .operator opened → ∃ b, u.kind.rank? = some b ∧ t.rank ≤ b) := by
  induction ht generalizing us vs u after opened with
  | number pos value =>
      obtain ⟨tok, htok, -⟩ := spells_singleton h
      cases us with
      | nil =>
          cases hrun
          exact ⟨List.suffix_refl opened, fun hs => by cases hs⟩
      | cons x us' => simp at htok
  | name pos id =>
      obtain ⟨tok, htok, -⟩ := spells_singleton h
      cases us with
      | nil =>
          cases hrun
          exact ⟨List.suffix_refl opened, fun hs => by cases hs⟩
      | cons x us' => simp at htok
  | group pos hinner ih =>
      obtain ⟨opening, xs, closing, hts, hopening, hxs, hclosing⟩ := Spells.group_iff.mp h
      cases us with
      | nil =>
          cases hrun
          exact ⟨List.suffix_refl opened, fun hs => by cases hs⟩
      | cons x us =>
          simp only [List.cons_append, List.cons.injEq] at hts
          obtain ⟨rfl, hts⟩ := hts
          rw [State.run_cons, step_opening hopening, Option.bind_some] at hrun
          have hdeep : (x.pos :: opened) <:+ s.opened := by
            rcases append_cons_eq_append_cons hts with ⟨zs, hus, hnil⟩ | ⟨rfl, -, -⟩ | ⟨zs, rfl, -⟩
            · simp at hnil
            · rw [run_of_spells hinner hxs] at hrun
              cases hrun
              exact List.suffix_refl _
            · exact (ih hxs hrun).1
          refine ⟨(List.suffix_cons x.pos opened).trans hdeep, ?_⟩
          rintro rfl
          have hlen := hdeep.length_le
          simp only [State.opened, List.length_cons] at hlen
          omega
  | factorial pos hoperand hrank ih =>
      obtain ⟨xs, bang, hts, hxs, hbang⟩ := Spells.factorial_iff.mp h
      rcases append_cons_eq_append_cons hts with ⟨zs, hus, hnil⟩ | ⟨rfl, rfl, -⟩ | ⟨zs, rfl, -⟩
      · simp at hnil
      · rw [run_of_spells hoperand hxs] at hrun
        cases hrun
        have hk : u.kind = .bang := kind_of_mark hbang
        exact ⟨List.suffix_refl opened, fun _ => ⟨3, by simp [Token.Kind.rank?, hk], le_rfl⟩⟩
      · obtain ⟨hsuffix, hnext⟩ := ih hxs hrun
        refine ⟨hsuffix, fun hs => ?_⟩
        obtain ⟨b, hb, hle⟩ := hnext hs
        exact ⟨b, hb, hrank.trans hle⟩
  | binary pos hleft hright hl hr ihl ihr =>
      obtain ⟨xs, sign, ys, hts, hxs, hsign, hys⟩ := Spells.binary_iff.mp h
      rcases append_cons_eq_append_cons hts with ⟨zs, rfl, rfl⟩ | ⟨rfl, rfl, -⟩ | ⟨zs, rfl, -⟩
      · -- The prefix reaches into the right operand.
        obtain ⟨m, hm, hrun⟩ := State.exists_run_of_append hrun
        rw [run_of_spells hleft hxs] at hm
        cases hm
        rw [State.run_cons, State.step_operator (operator?_of_mark hsign),
          Option.bind_some] at hrun
        obtain ⟨hsuffix, hnext⟩ := ihr hys hrun
        refine ⟨hsuffix, fun hs => ?_⟩
        obtain ⟨b, hb, hle⟩ := hnext hs
        exact ⟨b, hb, (Nat.le_of_lt hr).trans hle⟩
      · rw [run_of_spells hleft hxs] at hrun
        cases hrun
        refine ⟨List.suffix_refl opened, fun _ => ⟨_, ?_, le_rfl⟩⟩
        rw [kind_of_mark hsign]
        exact Operator.rank?_token _
      · obtain ⟨hsuffix, hnext⟩ := ihl hxs hrun
        refine ⟨hsuffix, fun hs => ?_⟩
        obtain ⟨b, hb, hle⟩ := hnext hs
        exact ⟨b, hb, hl.trans hle⟩

/-! ## Trees with the same tokens -/

/-- Unless an expression is a number, a name or a group, its root stands right after an operand. -/
theorem exists_root {t : Tree} (ht : t.Tiered) (hrank : t.rank < 4) {ts : List Token}
    (h : t.Spells ts) (after : Token) (opened : List Position) :
    ∃ xs u ys, ts = xs ++ u :: ys ∧
      State.run (.operand after opened) xs = some (.operator opened) ∧
        u.kind.rank? = some t.rank := by
  cases ht with
  | number pos value => simp [rank] at hrank
  | name pos id => simp [rank] at hrank
  | group pos _ => simp [rank] at hrank
  | factorial pos hoperand _ =>
      obtain ⟨xs, bang, rfl, hxs, hbang⟩ := Spells.factorial_iff.mp h
      have hk : bang.kind = .bang := kind_of_mark hbang
      exact ⟨xs, bang, [], rfl, run_of_spells hoperand hxs after opened,
        by simp [Token.Kind.rank?, hk, rank]⟩
  | binary pos hleft _ _ _ =>
      obtain ⟨xs, sign, ys, rfl, hxs, hsign, -⟩ := Spells.binary_iff.mp h
      refine ⟨xs, sign, ys, rfl, run_of_spells hleft hxs after opened, ?_⟩
      rw [kind_of_mark hsign]
      exact Operator.rank?_token _

theorem rank_le_of_spells {t u : Tree} (ht : t.Tiered) (hu : u.Tiered) {ts : List Token}
    (h : t.Spells ts) (h' : u.Spells ts) : t.rank ≤ u.rank := by
  by_cases hrank : u.rank < 4
  · obtain ⟨xs, tok, ys, rfl, hrun, htok⟩ :=
      exists_root hu hrank h' (Token.ofValue .print .absent .unknown) []
    obtain ⟨b, hb, hle⟩ := (run_beginning ht h hrun).2 rfl
    rw [htok] at hb
    exact hle.trans (Option.some.inj hb).ge
  · exact (rank_le t).trans (Nat.le_of_not_lt hrank)

theorem rank_eq_of_spells {t u : Tree} (ht : t.Tiered) (hu : u.Tiered) {ts : List Token}
    (h : t.Spells ts) (h' : u.Spells ts) : t.rank = u.rank :=
  (rank_le_of_spells ht hu h h').antisymm (rank_le_of_spells hu ht h' h)

/-- The place of an operator of the tier of the root cannot lie before the root. -/
theorem not_root_before {left right : Tree} (hleft : left.Tiered) (hright : right.Tiered)
    {op : Operator} (hr : op.rank < right.rank) {xs zs ys : List Token} {sign tok : Token}
    (hxs : left.Spells xs) (hsign : operator? sign.kind = some op)
    (hys : right.Spells (zs ++ tok :: ys)) {left' : Tree} (hleft' : left'.Tiered)
    (hxs' : left'.Spells (xs ++ sign :: zs)) : tok.kind.rank? ≠ some op.rank := by
  intro htok
  have hrun := run_of_spells hleft' hxs' (Token.ofValue .print .absent .unknown) []
  obtain ⟨m, hm, hrest⟩ := State.exists_run_of_append hrun
  rw [run_of_spells hleft hxs] at hm
  cases hm
  rw [State.run_cons, State.step_operator hsign, Option.bind_some] at hrest
  obtain ⟨b, hb, hle⟩ := (run_beginning hright hys hrest).2 rfl
  rw [htok] at hb
  cases hb
  omega

/-- The tokens of an expression determine it. -/
theorem eq_of_spells {t u : Tree} (ht : t.Tiered) (hu : u.Tiered) {ts : List Token}
    (h : t.Spells ts) (h' : u.Spells ts) : t = u := by
  induction ht generalizing u ts with
  | number pos value =>
      have hrank := rank_eq_of_spells (.number pos value) hu h h'
      obtain ⟨tok, rfl, htok⟩ := spells_singleton h
      cases hu with
      | number pos' value' => simpa [Spells, marks, htok, and_comm] using h'
      | name pos' id' => simp [Spells, marks, htok] at h'
      | group pos' _ => simp [Spells, marks] at h'
      | factorial pos' _ _ => simp [rank] at hrank
      | binary pos' _ _ _ _ => exact (Operator.rank_ne_four _ hrank.symm).elim
  | name pos id =>
      have hrank := rank_eq_of_spells (.name pos id) hu h h'
      obtain ⟨tok, rfl, htok⟩ := spells_singleton h
      cases hu with
      | number pos' value' => simp [Spells, marks, htok] at h'
      | name pos' id' => simpa [Spells, marks, htok, and_comm] using h'
      | group pos' _ => simp [Spells, marks] at h'
      | factorial pos' _ _ => simp [rank] at hrank
      | binary pos' _ _ _ _ => exact (Operator.rank_ne_four _ hrank.symm).elim
  | group pos hinner ih =>
      have hrank := rank_eq_of_spells (.group pos hinner) hu h h'
      obtain ⟨opening, xs, closing, rfl, hopening, hxs, -⟩ := Spells.group_iff.mp h
      cases hu with
      | number pos' value' => simp [Spells, marks] at h'
      | name pos' id' => simp [Spells, marks] at h'
      | group pos' hinner' =>
          obtain ⟨opening', xs', closing', hts, hopening', hxs', -⟩ := Spells.group_iff.mp h'
          simp only [List.cons.injEq, List.append_singleton_inj] at hts
          obtain ⟨rfl, rfl, -⟩ := hts
          have hpos : pos = pos' := by simpa [hopening] using hopening'
          rw [hpos, ih hinner' hxs hxs']
      | factorial pos' _ _ => simp [rank] at hrank
      | binary pos' _ _ _ _ => exact (Operator.rank_ne_four _ hrank.symm).elim
  | factorial pos hoperand hle ih =>
      have hrank := rank_eq_of_spells (.factorial pos hoperand hle) hu h h'
      obtain ⟨xs, bang, rfl, hxs, hbang⟩ := Spells.factorial_iff.mp h
      cases hu with
      | number pos' value' => simp [rank] at hrank
      | name pos' id' => simp [rank] at hrank
      | group pos' _ => simp [rank] at hrank
      | factorial pos' hoperand' _ =>
          obtain ⟨xs', bang', hts, hxs', hbang'⟩ := Spells.factorial_iff.mp h'
          obtain ⟨rfl, rfl⟩ := List.append_singleton_inj.mp hts
          have hpos : pos = pos' := by simpa [hbang] using hbang'
          rw [hpos, ih hoperand' hxs hxs']
      | binary pos' _ _ _ _ => exact (Operator.rank_ne_three _ hrank.symm).elim
  | @binary pos op left right hleft hright hl hr ihl ihr =>
      have hrank := rank_eq_of_spells (.binary pos hleft hright hl hr) hu h h'
      obtain ⟨xs, sign, ys, rfl, hxs, hsign, hys⟩ := Spells.binary_iff.mp h
      cases hu with
      | number pos' value' => simp [rank] at hrank
      | name pos' id' => simp [rank] at hrank
      | group pos' _ => simp [rank] at hrank
      | factorial pos' _ _ => simp [rank] at hrank
      | @binary pos' op' left' right' hleft' hright' hl' hr' =>
          obtain ⟨xs', sign', ys', hts, hxs', hsign', hys'⟩ := Spells.binary_iff.mp h'
          have hop := operator?_of_mark hsign
          have hop' := operator?_of_mark hsign'
          have hk : sign.kind.rank? = some op.rank := by rw [kind_of_mark hsign, op.rank?_token]
          have hk' : sign'.kind.rank? = some op'.rank := by
            rw [kind_of_mark hsign', op'.rank?_token]
          simp only [rank] at hrank
          rcases append_cons_eq_append_cons hts with ⟨zs, rfl, rfl⟩ | ⟨rfl, rfl, rfl⟩ |
            ⟨zs, rfl, rfl⟩
          · exact (not_root_before hleft' hright' hr' hxs' hop' hys' hleft hxs
              (hrank ▸ hk)).elim
          · have hsame : op = op' := Option.some.inj (hop.symm.trans hop')
            have hpos : pos = pos' := by simpa [hsign, hsame] using hsign'
            rw [hsame, hpos, ihl hleft' hxs hxs', ihr hright' hys hys']
          · exact (not_root_before hleft hright hr hxs hop hys hleft' hxs'
              (hrank ▸ hk')).elim

/-! ## Statements and programs -/

theorem kind_of_mem_marks {t : Tree} (ht : t.Tiered) {m : Mark} (hm : m ∈ t.marks) :
    m.kind ≠ .terminator ∧ m.kind ≠ .assign ∧ m.kind ≠ .print := by
  induction ht with
  | number pos value => simp_all [marks]
  | name pos id => simp_all [marks]
  | group pos _ ih =>
      simp only [marks, List.mem_cons, List.mem_append, List.not_mem_nil, or_false] at hm
      rcases hm with rfl | hm | rfl
      · simp
      · exact ih hm
      · simp
  | factorial pos _ _ ih =>
      simp only [marks, List.mem_cons, List.mem_append, List.not_mem_nil, or_false] at hm
      rcases hm with hm | rfl
      · exact ih hm
      · simp
  | @binary pos op left right _ _ _ _ ihl ihr =>
      simp only [marks, List.mem_cons, List.mem_append] at hm
      rcases hm with hm | rfl | hm
      · exact ihl hm
      · cases op <;> simp [Operator.token]
      · exact ihr hm

theorem kind_ne_terminator {t : Tree} (ht : t.IsStatement) {ts : List Token} (h : t.Spells ts) :
    ∀ x ∈ ts, x.kind ≠ .terminator := by
  intro x hx
  have hmem : x.mark ∈ t.marks := h ▸ List.mem_map_of_mem hx
  rw [← Token.mark_kind]
  cases t with
  | bare pos body => exact (kind_of_mem_marks ht.1 hmem).1
  | assign pos id body =>
      simp only [marks, List.mem_cons] at hmem
      rcases hmem with hm | hm | hm
      · simp [hm]
      · simp [hm]
      · exact (kind_of_mem_marks ht hm).1
  | print pos body =>
      simp only [marks, List.mem_cons] at hmem
      rcases hmem with hm | hm
      · simp [hm]
      · exact (kind_of_mem_marks ht hm).1
  | _ => cases ht

theorem Spells.assign_iff {pos : Position} {id : String} {body : Tree} {ts : List Token} :
    (Tree.assign pos id body).Spells ts ↔
      ∃ target sign xs, ts = target :: sign :: xs ∧
        target.mark = ⟨.name, some (.text id), some pos⟩ ∧ sign.mark = ⟨.assign, none, none⟩ ∧
          body.Spells xs := by
  constructor
  · intro h
    obtain ⟨target, rest, rfl, htarget, hrest⟩ := List.map_eq_cons_iff.mp h
    obtain ⟨sign, xs, rfl, hsign, hxs⟩ := List.map_eq_cons_iff.mp hrest
    exact ⟨target, sign, xs, rfl, htarget, hsign, hxs⟩
  · rintro ⟨target, sign, xs, rfl, htarget, hsign, hxs⟩
    simp only [Spells] at hxs
    simp [Spells, marks, htarget, hsign, hxs]

theorem Spells.print_iff {pos : Position} {body : Tree} {ts : List Token} :
    (Tree.print pos body).Spells ts ↔
      ∃ keyword xs, ts = keyword :: xs ∧ keyword.mark = ⟨.print, none, some pos⟩ ∧
        body.Spells xs := by
  constructor
  · intro h
    obtain ⟨keyword, xs, rfl, hkeyword, hxs⟩ := List.map_eq_cons_iff.mp h
    exact ⟨keyword, xs, rfl, hkeyword, hxs⟩
  · rintro ⟨keyword, xs, rfl, hkeyword, hxs⟩
    simp only [Spells] at hxs
    simp [Spells, marks, hkeyword, hxs]

theorem run_of_statement {t : Tree} (ht : t.IsStatement) {ts : List Token} (h : t.Spells ts) :
    ∃ s, State.run .fresh ts = some s ∧ s.Ended := by
  cases t with
  | bare pos body =>
      have hrun := run_of_spells ht.1 h (Token.ofValue .print .absent .unknown) []
      cases ts with
      | nil => simp at hrun
      | cons x xs =>
          rcases State.run_fresh_of_run_operand hrun with hfresh | ⟨-, -, hfresh⟩
          · exact ⟨_, hfresh, Or.inl rfl⟩
          · exact ⟨_, hfresh, Or.inr rfl⟩
  | assign pos id body =>
      obtain ⟨target, sign, xs, rfl, htarget, hsign, hxs⟩ := Spells.assign_iff.mp h
      have hfirst : State.step .fresh target = some .named := by
        simp [State.step, kind_of_mark htarget]
      have hsecond : State.step .named sign = some (.operand sign []) := by
        simp [State.step, kind_of_mark hsign]
      refine ⟨.operator [], ?_, Or.inl rfl⟩
      rw [State.run_cons, hfirst, Option.bind_some, State.run_cons, hsecond, Option.bind_some]
      exact run_of_spells ht hxs sign []
  | print pos body =>
      obtain ⟨keyword, xs, rfl, hkeyword, hxs⟩ := Spells.print_iff.mp h
      have hfirst : State.step .fresh keyword = some (.operand keyword []) := by
        simp [State.step, kind_of_mark hkeyword]
      refine ⟨.operator [], ?_, Or.inl rfl⟩
      rw [State.run_cons, hfirst, Option.bind_some]
      exact run_of_spells ht hxs keyword []
  | _ => cases ht

theorem statement_eq_of_spells {t u : Tree} (ht : t.IsStatement) (hu : u.IsStatement)
    {ts : List Token} (h : t.Spells ts) (h' : u.Spells ts) : t = u := by
  have hbare {body : Tree} (hbody : body.Tiered) (hts : body.Spells ts) :
      ∀ x ∈ ts, x.kind ≠ .assign ∧ x.kind ≠ .print := fun x hx =>
    (kind_of_mem_marks hbody (hts ▸ List.mem_map_of_mem hx : x.mark ∈ body.marks)).2
  cases t with
  | bare pos body =>
      cases u with
      | bare pos' body' => rw [ht.2, hu.2, eq_of_spells ht.1 hu.1 h h']
      | assign pos' id' body' =>
          obtain ⟨target, sign, xs, rfl, -, hsign, -⟩ := Spells.assign_iff.mp h'
          exact ((hbare ht.1 h sign (by simp)).1 (kind_of_mark hsign)).elim
      | print pos' body' =>
          obtain ⟨keyword, xs, rfl, hkeyword, -⟩ := Spells.print_iff.mp h'
          exact ((hbare ht.1 h keyword (by simp)).2 (kind_of_mark hkeyword)).elim
      | _ => cases hu
  | assign pos id body =>
      obtain ⟨target, sign, xs, rfl, htarget, hsign, hxs⟩ := Spells.assign_iff.mp h
      cases u with
      | bare pos' body' => exact ((hbare hu.1 h' sign (by simp)).1 (kind_of_mark hsign)).elim
      | assign pos' id' body' =>
          obtain ⟨target', sign', xs', hts, htarget', -, hxs'⟩ := Spells.assign_iff.mp h'
          cases hts
          have hmark : id = id' ∧ pos = pos' := by simpa [htarget] using htarget'
          rw [hmark.1, hmark.2, eq_of_spells ht hu hxs hxs']
      | print pos' body' =>
          obtain ⟨keyword, xs', hts, hkeyword, -⟩ := Spells.print_iff.mp h'
          cases hts
          simp [htarget] at hkeyword
      | _ => cases hu
  | print pos body =>
      obtain ⟨keyword, xs, rfl, hkeyword, hxs⟩ := Spells.print_iff.mp h
      cases u with
      | bare pos' body' =>
          exact ((hbare hu.1 h' keyword (by simp)).2 (kind_of_mark hkeyword)).elim
      | assign pos' id' body' =>
          obtain ⟨target, sign, xs', hts, htarget, -⟩ := Spells.assign_iff.mp h'
          cases hts
          simp [hkeyword] at htarget
      | print pos' body' =>
          obtain ⟨keyword', xs', hts, hkeyword', hxs'⟩ := Spells.print_iff.mp h'
          cases hts
          have hpos : pos = pos' := by simpa [hkeyword] using hkeyword'
          rw [hpos, eq_of_spells ht hu hxs hxs']
      | _ => cases hu
  | _ => cases ht

theorem statement_ne_nil {t : Tree} (ht : t.IsStatement) {ts : List Token} (h : t.Spells ts) :
    ts ≠ [] := by
  rintro rfl
  obtain ⟨s, hs, hended⟩ := run_of_statement ht h
  cases hs
  simp [State.Ended] at hended

theorem run_of_layout {statements : List Tree} {ts : List Token} (h : Layout statements ts)
    (hall : ∀ t ∈ statements, t.IsStatement) :
    ∃ s, State.run .fresh ts = some s ∧ s.complete = true := by
  induction h with
  | nil => exact ⟨.fresh, rfl, rfl⟩
  | skip hk _ ih =>
      obtain ⟨s, hs, hcomplete⟩ := ih hall
      refine ⟨s, ?_, hcomplete⟩
      rw [State.run_cons]
      simpa [State.step, hk] using hs
  | last hspells =>
      obtain ⟨s, hs, hended⟩ := run_of_statement (hall _ (by simp)) hspells
      exact ⟨s, hs, hended.complete⟩
  | cons hspells hk _ ih =>
      obtain ⟨s, hs, hended⟩ := run_of_statement (hall _ (by simp)) hspells
      obtain ⟨s', hs', hcomplete⟩ := ih fun t ht => hall t (by simp [ht])
      refine ⟨s', State.run_trans hs ?_, hcomplete⟩
      rw [State.run_cons, hended.step hk]
      exact hs'

theorem Layout.cases {statements : List Tree} {ts : List Token} (h : Layout statements ts) :
    (statements = [] ∧ ts = []) ∨
      (∃ t rest, ts = t :: rest ∧ t.kind = .terminator ∧ Layout statements rest) ∨
      (∃ statement, statements = [statement] ∧ statement.Spells ts) ∨
      (∃ statement xs t others rest, statements = statement :: others ∧ ts = xs ++ t :: rest ∧
        statement.Spells xs ∧ t.kind = .terminator ∧ Layout others rest) := by
  cases h with
  | nil => exact Or.inl ⟨rfl, rfl⟩
  | skip hk hrest => exact Or.inr (Or.inl ⟨_, _, rfl, hk, hrest⟩)
  | last hspells => exact Or.inr (Or.inr (Or.inl ⟨_, rfl, hspells⟩))
  | cons hspells hk hrest =>
      exact Or.inr (Or.inr (Or.inr ⟨_, _, _, _, _, rfl, rfl, hspells, hk, hrest⟩))

theorem kind_head_ne_terminator {t : Tree} (ht : t.IsStatement) {xs ys rest : List Token}
    {x : Token} (h : t.Spells xs) (hxs : xs ++ ys = x :: rest) : x.kind ≠ .terminator := by
  cases xs with
  | nil => exact (statement_ne_nil ht h rfl).elim
  | cons z zs =>
      simp only [List.cons_append, List.cons.injEq] at hxs
      exact hxs.1 ▸ kind_ne_terminator ht h z List.mem_cons_self

/-- The tokens of a program determine its statements. -/
theorem layout_unique {statements others : List Tree} {ts : List Token}
    (h : Layout statements ts) (h' : Layout others ts)
    (hall : ∀ t ∈ statements, t.IsStatement) (hall' : ∀ t ∈ others, t.IsStatement) :
    statements = others := by
  induction h generalizing others with
  | nil =>
      rcases h'.cases with ⟨rfl, -⟩ | ⟨t, rest, hts, -⟩ | ⟨u, rfl, hu⟩ |
        ⟨u, xs, t, us, rest, -, hts, -⟩
      · rfl
      · simp at hts
      · exact (statement_ne_nil (hall' u (by simp)) hu rfl).elim
      · simp at hts
  | @skip statements t ts hk _ ih =>
      rcases h'.cases with ⟨-, hts⟩ | ⟨t', rest, hts, hk', hrest⟩ | ⟨u, rfl, hu⟩ |
        ⟨u, xs, t', us, rest, rfl, hts, hu, -⟩
      · simp at hts
      · cases hts
        exact ih hrest hall hall'
      · exact (kind_ne_terminator (hall' u (by simp)) hu t (by simp) hk).elim
      · exact (kind_head_ne_terminator (hall' u (by simp)) hu hts.symm hk).elim
  | @last statement ts hspells =>
      have hst := hall statement (by simp)
      rcases h'.cases with ⟨-, rfl⟩ | ⟨t, rest, rfl, hk, -⟩ | ⟨u, rfl, hu⟩ |
        ⟨u, xs, t, us, rest, -, rfl, -, hk, -⟩
      · exact (statement_ne_nil hst hspells rfl).elim
      · exact (kind_ne_terminator hst hspells t (by simp) hk).elim
      · rw [statement_eq_of_spells hst (hall' u (by simp)) hspells hu]
      · exact (kind_ne_terminator hst hspells t (by simp) hk).elim
  | @cons statement xs t statements ts hspells hk _ ih =>
      have hst := hall statement (by simp)
      rcases h'.cases with ⟨-, hts⟩ | ⟨t', rest, hts, hk', -⟩ | ⟨u, rfl, hu⟩ |
        ⟨u, ys, t', us, rest, rfl, hts, hu, hk', hrest⟩
      · simp at hts
      · exact (kind_head_ne_terminator hst hspells hts hk').elim
      · exact (kind_ne_terminator (hall' u (by simp)) hu t (by simp) hk).elim
      · have hst' := hall' u (by simp)
        rcases append_cons_eq_append_cons hts with ⟨zs, rfl, -⟩ | ⟨rfl, rfl, rfl⟩ | ⟨zs, rfl, -⟩
        · exact (kind_ne_terminator hst hspells t' (by simp) hk').elim
        · rw [statement_eq_of_spells hst hst' hspells hu,
            ih hrest (fun v hv => hall v (by simp [hv])) (fun v hv => hall' v (by simp [hv]))]
        · exact (kind_ne_terminator hst' hu t (by simp) hk).elim

/-- Flattening the statements gives back all tokens but the terminators. -/
theorem Layout.marks_eq {statements : List Tree} {ts : List Token} (h : Layout statements ts)
    (hall : ∀ t ∈ statements, t.IsStatement) :
    (ts.filter fun t => t.kind ≠ .terminator).map Token.mark = statements.flatMap marks := by
  have hkeep {statement : Tree} {xs : List Token} (hst : statement.IsStatement)
      (hxs : statement.Spells xs) :
      (xs.filter fun t => t.kind ≠ .terminator).map Token.mark = statement.marks := by
    rw [List.filter_eq_self.mpr fun t ht => by simpa using kind_ne_terminator hst hxs t ht]
    exact hxs
  induction h with
  | nil => rfl
  | skip hk _ ih => simpa [hk] using ih hall
  | last hspells => simpa using hkeep (hall _ (by simp)) hspells
  | cons hspells hk _ ih =>
      have hrest := ih fun t ht => hall t (by simp [ht])
      rw [List.filter_append, List.map_append, hkeep (hall _ (by simp)) hspells]
      simpa [hk] using hrest

end Tree

end Reckoner
