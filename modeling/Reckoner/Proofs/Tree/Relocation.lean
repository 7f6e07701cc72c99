import Reckoner.Proofs.Scan.Joining
import Reckoner.Proofs.Tree.Nesting

/-!
# Statements at other positions

Moving the positions of tokens moves those of the statements that they spell, and nothing else: the
tiers, the order of the statements and the nesting stay as they are. Two programs with a terminator
between them have the statements of both, and there is no other way to divide their statements.
-/

namespace Reckoner

namespace Tree

/-- The tree with all its positions moved. -/
def relocate (f : Position → Position) : Tree → Tree :=
  fold fun t parts =>
    match t, parts with
    | .number pos value, _ => .number (f pos) value
    | .name pos id, _ => .name (f pos) id
    | .binary pos op _ _, [left, right] => .binary (f pos) op left right
    | .factorial pos _, [operand] => .factorial (f pos) operand
    | .group pos _, [inner] => .group (f pos) inner
    | .empty pos, _ => .empty (f pos)
    | .bare pos _, [body] => .bare (f pos) body
    | .assign pos id _, [body] => .assign (f pos) id body
    | .print pos _, [body] => .print (f pos) body
    | .other pos kind value _, children => .other (f pos) kind value children
    | t, _ => t

variable {f : Position → Position} {t : Tree} {ts : List Token}

@[simp] theorem pos_relocate (f : Position → Position) (t : Tree) :
    (t.relocate f).pos = f t.pos := by
  cases t <;> rfl

@[simp] theorem rank_relocate (f : Position → Position) (t : Tree) :
    (t.relocate f).rank = t.rank := by
  cases t <;> rfl

theorem children_relocate (f : Position → Position) (t : Tree) :
    (t.relocate f).children = t.children.map (relocate f) := by
  cases t with
  | other pos kind value children => exact foldAll_eq_map _ children
  | _ => rfl

theorem Tiered.relocate (h : t.Tiered) (f : Position → Position) : (t.relocate f).Tiered := by
  induction h with
  | number pos value => exact .number (f pos) value
  | name pos id => exact .name (f pos) id
  | group pos _ ih => exact .group (f pos) ih
  | factorial pos _ hrank ih =>
      exact .factorial (f pos) ih (hrank.trans_eq (rank_relocate f _).symm)
  | binary pos _ _ hleft hright ihl ihr =>
      have hleft' := hleft.trans_eq (rank_relocate f _).symm
      have hright' := hright.trans_eq (rank_relocate f _).symm
      exact .binary (f pos) ihl ihr hleft' hright'

theorem IsStatement.relocate (h : t.IsStatement) (f : Position → Position) :
    (t.relocate f).IsStatement := by
  cases t with
  | bare pos body => exact ⟨h.1.relocate f, (congrArg f h.2).trans (pos_relocate f body).symm⟩
  | assign pos id body => exact Tiered.relocate h f
  | print pos body => exact Tiered.relocate h f
  | _ => cases h

end Tree

/-! ## Tokens of statements -/

/-- The mark of a moved token. -/
def Mark.relocate (f : Position → Position) (m : Mark) : Mark :=
  { m with pos? := m.pos?.map f }

theorem Token.mark_relocate (f : Position → Position) (t : Token) :
    (t.relocate f).mark = t.mark.relocate f := by
  have hpos : (t.relocate f).mark.pos? = t.mark.pos?.map f := by
    by_cases h : t.kind = .assign ∨ t.kind = .closeParen <;> simp [mark, relocate, h]
  exact congrArg (Mark.mk t.kind t.mark.value?) hpos

namespace Tree

variable {f : Position → Position} {t : Tree} {ts : List Token}

theorem Tiered.marks_relocate (h : t.Tiered) (f : Position → Position) :
    (t.relocate f).marks = t.marks.map (Mark.relocate f) := by
  induction h with
  | number pos value => rfl
  | name pos id => rfl
  | @group pos inner _ ih =>
      change _ :: ((inner.relocate f).marks ++ _) = _
      rw [ih, marks, List.map_cons, List.map_append]
      rfl
  | @factorial pos operand _ _ ih =>
      change (operand.relocate f).marks ++ _ = _
      rw [ih, marks, List.map_append]
      rfl
  | @binary pos op left right _ _ _ _ ihl ihr =>
      change (left.relocate f).marks ++ _ :: (right.relocate f).marks = _
      rw [ihl, ihr, marks, List.map_append, List.map_cons]
      rfl

theorem IsStatement.marks_relocate (h : t.IsStatement) (f : Position → Position) :
    (t.relocate f).marks = t.marks.map (Mark.relocate f) := by
  cases t with
  | bare pos body => exact h.1.marks_relocate f
  | assign pos id body =>
      exact congrArg (fun marks => _ :: _ :: marks) (Tiered.marks_relocate h f)
  | print pos body => exact congrArg (List.cons _) (Tiered.marks_relocate h f)
  | _ => cases h

theorem Spells.relocate (h : t.Spells ts) (ht : t.IsStatement) (f : Position → Position) :
    (t.relocate f).Spells (ts.map (Token.relocate f)) := by
  rw [Spells, ht.marks_relocate, ← show ts.map Token.mark = t.marks from h, List.map_map,
    List.map_map]
  exact List.map_congr_left fun tok _ => tok.mark_relocate f

theorem Layout.relocate {statements : List Tree} (h : Layout statements ts)
    (hall : ∀ t ∈ statements, t.IsStatement) (f : Position → Position) :
    Layout (statements.map (Tree.relocate f)) (ts.map (Token.relocate f)) := by
  induction h with
  | nil => exact .nil
  | skip hk _ ih => exact .skip hk (ih hall)
  | last hspells => exact .last (hspells.relocate (hall _ (by simp)) f)
  | cons hspells hk _ ih =>
      rw [List.forall_mem_cons] at hall
      rw [List.map_append, List.map_cons, List.map_cons]
      exact .cons (hspells.relocate hall.1 f) hk (ih hall.2)

/-! ## Two programs -/

theorem Layout.append {us vs : List Tree} {xs ys : List Token} {t : Token} (h : Layout us xs)
    (hk : t.kind = .terminator) (h' : Layout vs ys) : Layout (us ++ vs) (xs ++ t :: ys) := by
  induction h with
  | nil => exact .skip hk h'
  | skip hk' _ ih => exact .skip hk' ih
  | last hspells => exact .cons hspells hk h'
  | cons hspells hk' _ ih =>
      rw [List.append_assoc, List.cons_append]
      exact .cons hspells hk' ih

/-- No statement reaches across a terminator. -/
theorem Layout.split {statements : List Tree} {xs ys : List Token} {t : Token}
    (h : Layout statements (xs ++ t :: ys)) (hk : t.kind = .terminator)
    (hall : ∀ t ∈ statements, t.IsStatement) :
    ∃ us vs, statements = us ++ vs ∧ Layout us xs ∧ Layout vs ys := by
  generalize hts : xs ++ t :: ys = ts at h
  induction h generalizing xs with
  | nil => simp at hts
  | @skip statements t' ts hk' hrest ih =>
      cases xs with
      | nil =>
          cases hts
          exact ⟨[], statements, rfl, .nil, hrest⟩
      | cons x xs =>
          rw [List.cons_append, List.cons.injEq] at hts
          obtain ⟨us, vs, hsplit, hus, hvs⟩ := ih hall hts.2
          exact ⟨us, vs, hsplit, hts.1 ▸ .skip hk' hus, hvs⟩
  | @last statement ts hspells =>
      have hst := hall statement (by simp)
      exact absurd hk (kind_ne_terminator hst hspells t (by simp [← hts]))
  | @cons statement zs t' statements ts hspells hk' hrest ih =>
      rw [List.forall_mem_cons] at hall
      rcases append_cons_eq_append_cons hts with ⟨ws, rfl, hws⟩ | ⟨rfl, rfl, rfl⟩ | ⟨ws, rfl, hws⟩
      · obtain ⟨us, vs, rfl, hus, hvs⟩ := ih hall.2 hws.symm
        exact ⟨statement :: us, vs, rfl, .cons hspells hk' hus, hvs⟩
      · exact ⟨[statement], statements, rfl, .last hspells, hrest⟩
      · exact absurd hk (kind_ne_terminator hall.1 hspells t (by simp))

end Tree

/-! ## Nesting -/

namespace Grammar

theorem peak_relocate (f : Position → Position) (count : Nat) (ts : List Token) :
    peak count (ts.map (Token.relocate f)) = peak count ts := by
  induction ts generalizing count with
  | nil => rfl
  | cons t ts ih =>
      rw [List.map_cons, peak, peak, ih]
      rfl

theorem nesting_relocate (f : Position → Position) (ts : List Token) :
    nesting (ts.map (Token.relocate f)) = nesting ts :=
  peak_relocate f 0 ts

/-- What is open in a program is closed by the terminator after it. -/
theorem nesting_append {t : Token} (h : t.kind = .terminator) (xs ys : List Token) :
    nesting (xs ++ t :: ys) = max (nesting xs) (nesting ys) := by
  have hreset (count : Nat) : openAfter count t = 0 := by simp [openAfter, h]
  have hle := foldl_openAfter_le_peak 0 xs
  rw [nesting, peak_append, peak, hreset]
  simp only [nesting]
  omega

end Grammar

end Reckoner
