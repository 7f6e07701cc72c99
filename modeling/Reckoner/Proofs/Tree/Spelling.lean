import Reckoner.Proofs.Grammar.Automaton

/-!
# Trees flattened to tokens

A tree of the language is flattened to the tokens that it stands for. A tree keeps the kinds of its
tokens, the values of numbers and names, and all positions other than those of equals signs and
closing parentheses; this much of a token is its mark.

A tree respects the tiers if its operands bind more tightly than its root, and on the left at least
as tightly. Such trees are told apart by their tokens: the grammar is unambiguous. The reason is
that the operator at the root is the last one of the loosest tier outside all parentheses.
-/

namespace Reckoner

/-- What a flattened tree keeps of a token. -/
structure Mark where
  kind : Token.Kind
  value? : Option Value
  pos? : Option Position
  deriving DecidableEq

namespace Token

def mark (t : Token) : Mark where
  kind := t.kind
  value? := if t.kind = .number ∨ t.kind = .name then some t.value else none
  pos? := if t.kind = .assign ∨ t.kind = .closeParen then none else some t.pos

@[simp] theorem mark_kind (t : Token) : t.mark.kind = t.kind := rfl

/-- Whether the kind and the value of the token are those of a piece of text: the kind is one of
the scanner's, the value of a number is a number and the value of a name is a text. -/
def Lexical (t : Token) : Prop :=
  match t.kind with
  | .number => ∃ x, t.value = .number x
  | .name => ∃ id, t.value = .text id
  | .endOfInput => False
  | .other _ => False
  | _ => True

end Token

namespace Operator

def token : Operator → Token.Kind
  | .plus => .plus
  | .minus => .minus
  | .times => .star
  | .over => .slash
  | .power => .caret

/-- How tightly an operator binds. -/
def rank : Operator → Nat
  | .plus => 0
  | .minus => 0
  | .times => 1
  | .over => 1
  | .power => 2

@[simp] theorem operator?_token (op : Operator) : Grammar.operator? op.token = some op := by
  cases op <;> rfl

theorem token_eq_of_operator? {kind : Token.Kind} {op : Operator}
    (h : Grammar.operator? kind = some op) : kind = op.token := by
  cases kind <;> cases h <;> rfl

theorem rank_lt (op : Operator) : op.rank < 3 := by
  cases op <;> decide

@[simp] theorem rank_ne_three (op : Operator) : op.rank ≠ 3 :=
  Nat.ne_of_lt op.rank_lt

@[simp] theorem rank_ne_four (op : Operator) : op.rank ≠ 4 :=
  Nat.ne_of_lt (op.rank_lt.trans (by decide))

end Operator

/-- How tightly a token binds that follows an operand. -/
def Token.Kind.rank? (kind : Token.Kind) : Option Nat :=
  if kind = .bang then some 3 else (Grammar.operator? kind).map Operator.rank

@[simp] theorem Operator.rank?_token (op : Operator) : op.token.rank? = some op.rank := by
  cases op <;> rfl

namespace Tree

/-- The marks of the tokens of a tree. -/
def marks : Tree → List Mark
  | .number pos value => [⟨.number, some (.number value), some pos⟩]
  | .name pos id => [⟨.name, some (.text id), some pos⟩]
  | .binary pos op left right => left.marks ++ ⟨op.token, none, some pos⟩ :: right.marks
  | .factorial pos operand => operand.marks ++ [⟨.bang, none, some pos⟩]
  | .group pos inner =>
    ⟨.openParen, none, some pos⟩ :: (inner.marks ++ [⟨.closeParen, none, none⟩])
  | .bare _ body => body.marks
  | .assign pos id body =>
    ⟨.name, some (.text id), some pos⟩ :: ⟨.assign, none, none⟩ :: body.marks
  | .print pos body => ⟨.print, none, some pos⟩ :: body.marks
  | .empty _ => []
  | .other _ _ _ _ => []

/-- Whether the tokens are those of the tree. -/
def Spells (t : Tree) (ts : List Token) : Prop :=
  ts.map Token.mark = t.marks

/-- How tightly the root of an expression binds. -/
def rank : Tree → Nat
  | .binary _ op _ _ => op.rank
  | .factorial _ _ => 3
  | _ => 4

/-- Expressions that respect the tiers. -/
inductive Tiered : Tree → Prop
  | number (pos : Position) (value : Float) : Tiered (.number pos value)
  | name (pos : Position) (id : String) : Tiered (.name pos id)
  | group (pos : Position) {inner : Tree} : Tiered inner → Tiered (.group pos inner)
  | factorial (pos : Position) {operand : Tree} :
      Tiered operand → 3 ≤ operand.rank → Tiered (.factorial pos operand)
  | binary (pos : Position) {op : Operator} {left right : Tree} :
      Tiered left → Tiered right → op.rank ≤ left.rank → op.rank < right.rank →
        Tiered (.binary pos op left right)

/-- Statements whose expressions respect the tiers. An expression that is a statement stands where
its root stands. -/
def IsStatement : Tree → Prop
  | .bare pos body => body.Tiered ∧ pos = body.pos
  | .assign _ _ body => body.Tiered
  | .print _ body => body.Tiered
  | _ => False

/-- Whether the tokens are those of the statements, with at least one terminator between
statements and any number around them. -/
inductive Layout : List Tree → List Token → Prop
  | nil : Layout [] []
  | skip {statements : List Tree} {t : Token} {ts : List Token} :
      t.kind = .terminator → Layout statements ts → Layout statements (t :: ts)
  | last {statement : Tree} {ts : List Token} :
      statement.Spells ts → Layout [statement] ts
  | cons {statement : Tree} {xs : List Token} {t : Token} {statements : List Tree}
      {ts : List Token} :
      statement.Spells xs → t.kind = .terminator → Layout statements ts →
        Layout (statement :: statements) (xs ++ t :: ts)

/-! ## Tokens of a tree -/

theorem rank_le (t : Tree) : t.rank ≤ 4 := by
  cases t with
  | binary pos op left right =>
      have hlt := op.rank_lt
      simp only [rank]
      omega
  | _ => simp [rank]

theorem spells_singleton {m : Mark} {ts : List Token} (h : ts.map Token.mark = [m]) :
    ∃ t, ts = [t] ∧ t.mark = m := by
  obtain ⟨t, rest, rfl, ht, hrest⟩ := List.map_eq_cons_iff.mp h
  rw [List.map_eq_nil_iff.mp hrest]
  exact ⟨t, rfl, ht⟩

theorem Spells.binary_iff {pos : Position} {op : Operator} {left right : Tree}
    {ts : List Token} : (Tree.binary pos op left right).Spells ts ↔
      ∃ xs t ys, ts = xs ++ t :: ys ∧ left.Spells xs ∧ t.mark = ⟨op.token, none, some pos⟩ ∧
        right.Spells ys := by
  constructor
  · intro h
    obtain ⟨xs, rest, rfl, hxs, hrest⟩ := List.map_eq_append_iff.mp h
    obtain ⟨t, ys, rfl, ht, hys⟩ := List.map_eq_cons_iff.mp hrest
    exact ⟨xs, t, ys, rfl, hxs, ht, hys⟩
  · rintro ⟨xs, t, ys, rfl, hxs, ht, hys⟩
    simp only [Spells] at hxs hys
    simp [Spells, marks, hxs, ht, hys]

theorem Spells.factorial_iff {pos : Position} {operand : Tree} {ts : List Token} :
    (Tree.factorial pos operand).Spells ts ↔
      ∃ xs t, ts = xs ++ [t] ∧ operand.Spells xs ∧ t.mark = ⟨.bang, none, some pos⟩ := by
  constructor
  · intro h
    obtain ⟨xs, rest, rfl, hxs, hrest⟩ := List.map_eq_append_iff.mp h
    obtain ⟨t, rfl, ht⟩ := spells_singleton hrest
    exact ⟨xs, t, rfl, hxs, ht⟩
  · rintro ⟨xs, t, rfl, hxs, ht⟩
    simp only [Spells] at hxs
    simp [Spells, marks, hxs, ht]

theorem Spells.group_iff {pos : Position} {inner : Tree} {ts : List Token} :
    (Tree.group pos inner).Spells ts ↔
      ∃ opening xs closing, ts = opening :: (xs ++ [closing]) ∧
        opening.mark = ⟨.openParen, none, some pos⟩ ∧ inner.Spells xs ∧
          closing.mark = ⟨.closeParen, none, none⟩ := by
  constructor
  · intro h
    obtain ⟨opening, rest, rfl, hopening, hrest⟩ := List.map_eq_cons_iff.mp h
    obtain ⟨xs, last, rfl, hxs, hlast⟩ := List.map_eq_append_iff.mp hrest
    obtain ⟨closing, rfl, hclosing⟩ := spells_singleton hlast
    exact ⟨opening, xs, closing, rfl, hopening, hxs, hclosing⟩
  · rintro ⟨opening, xs, closing, rfl, hopening, hxs, hclosing⟩
    simp only [Spells] at hxs
    simp [Spells, marks, hopening, hxs, hclosing]

/-! ## Tokens of the text -/

theorem lexical_of_mark_eq {a b : Token} (h : a.mark = b.mark) (hb : b.Lexical) : a.Lexical := by
  have hkind : a.kind = b.kind := congrArg Mark.kind h
  have hvalue : a.mark.value? = b.mark.value? := congrArg Mark.value? h
  cases hk : b.kind <;> simp_all [Token.mark, Token.Lexical]

/-- Each mark of an expression is that of a token that may stand in a text. -/
theorem exists_token_of_mem_marks {t : Tree} (ht : t.Tiered) {m : Mark} (hm : m ∈ t.marks) :
    ∃ tok : Token, tok.Lexical ∧ tok.mark = m := by
  induction ht with
  | number pos value =>
      rw [marks, List.mem_singleton] at hm
      subst hm
      exact ⟨⟨.number, .number value, pos, 1⟩, ⟨value, rfl⟩, rfl⟩
  | name pos id =>
      rw [marks, List.mem_singleton] at hm
      subst hm
      exact ⟨⟨.name, .text id, pos, 1⟩, ⟨id, rfl⟩, rfl⟩
  | group pos _ ih =>
      simp only [marks, List.mem_cons, List.mem_append, List.not_mem_nil, or_false] at hm
      rcases hm with rfl | hm | rfl
      · exact ⟨⟨.openParen, .absent, pos, 1⟩, trivial, rfl⟩
      · exact ih hm
      · exact ⟨⟨.closeParen, .absent, pos, 1⟩, trivial, rfl⟩
  | factorial pos _ _ ih =>
      simp only [marks, List.mem_append, List.mem_singleton] at hm
      rcases hm with hm | rfl
      · exact ih hm
      · exact ⟨⟨.bang, .absent, pos, 1⟩, trivial, rfl⟩
  | @binary pos op _ _ _ _ _ _ ihl ihr =>
      simp only [marks, List.mem_append, List.mem_cons] at hm
      rcases hm with hm | rfl | hm
      · exact ihl hm
      · refine ⟨⟨op.token, .absent, pos, 1⟩, ?_, ?_⟩ <;> cases op <;> trivial
      · exact ihr hm

theorem exists_token_of_mem_statement {t : Tree} (ht : t.IsStatement) {m : Mark}
    (hm : m ∈ t.marks) : ∃ tok : Token, tok.Lexical ∧ tok.mark = m := by
  cases t with
  | bare pos body => exact exists_token_of_mem_marks ht.1 hm
  | assign pos id body =>
      simp only [marks, List.mem_cons] at hm
      rcases hm with rfl | rfl | hm
      · exact ⟨⟨.name, .text id, pos, 1⟩, ⟨id, rfl⟩, rfl⟩
      · exact ⟨⟨.assign, .absent, pos, 1⟩, trivial, rfl⟩
      · exact exists_token_of_mem_marks ht hm
  | print pos body =>
      simp only [marks, List.mem_cons] at hm
      rcases hm with rfl | hm
      · exact ⟨⟨.print, .absent, pos, 1⟩, trivial, rfl⟩
      · exact exists_token_of_mem_marks ht hm
  | _ => cases ht

theorem lexical_of_spells {t : Tree} (ht : t.IsStatement) {ts : List Token} (h : t.Spells ts) :
    ∀ tok ∈ ts, tok.Lexical := by
  intro tok htok
  have hmem : tok.mark ∈ t.marks := h ▸ List.mem_map_of_mem htok
  obtain ⟨tok', hlex, hmark⟩ := exists_token_of_mem_statement ht hmem
  exact lexical_of_mark_eq hmark.symm hlex

theorem lexical_of_terminator {t : Token} (h : t.kind = .terminator) : t.Lexical := by
  simp [Token.Lexical, h]

theorem lexical_of_layout {statements : List Tree} {ts : List Token} (h : Layout statements ts)
    (hall : ∀ t ∈ statements, t.IsStatement) : ∀ tok ∈ ts, tok.Lexical := by
  induction h with
  | nil => simp
  | skip hk _ ih => exact List.forall_mem_cons.mpr ⟨lexical_of_terminator hk, ih hall⟩
  | last hspells => exact lexical_of_spells (hall _ (by simp)) hspells
  | cons hspells hk _ ih =>
      rw [List.forall_mem_append, List.forall_mem_cons]
      exact ⟨lexical_of_spells (hall _ (by simp)) hspells, lexical_of_terminator hk,
        ih fun t ht => hall t (by simp [ht])⟩

theorem exists_layout {statements : List Tree} (hall : ∀ t ∈ statements, t.IsStatement) :
    ∃ ts, Layout statements ts := by
  induction statements with
  | nil => exact ⟨[], .nil⟩
  | cons statement statements ih =>
      obtain ⟨ts, hts⟩ := ih fun t ht => hall t (by simp [ht])
      have hmarks : statement.marks ∈ Set.range (List.map Token.mark) := by
        rw [Set.range_list_map]
        intro m hm
        obtain ⟨tok, -, hmark⟩ := exists_token_of_mem_statement (hall statement (by simp)) hm
        exact ⟨tok, hmark⟩
      obtain ⟨xs, hxs⟩ := hmarks
      exact ⟨xs ++ ⟨.terminator, .absent, .unknown, 1⟩ :: ts, .cons hxs rfl hts⟩

end Tree

end Reckoner
