import Reckoner.Position
import Reckoner.Token.Value

/-!
# Trees

The trees of expressions and statements. Every tree has a kind, a value, which may be absent,
children in order, and a position. Besides the trees that the language uses there are trees of other kinds,
which can be built and shown but neither evaluated nor executed.

All functions on whole trees are folds: `fold f` gives `f` the tree itself and the results for
its children. `fold_eq` states this at once for every kind of tree.
-/

namespace Reckoner

/-- The binary operators. -/
inductive Operator
  | plus
  | minus
  | times
  | over
  | power
  deriving DecidableEq, Repr

/-- The kind of a tree with the operator at its root. -/
def Operator.kind : Operator → String
  | .plus => "plus"
  | .minus => "minus"
  | .times => "asterisk"
  | .over => "slash"
  | .power => "power"

/-- Expressions and statements. -/
inductive Tree
  /-- A number. -/
  | number (pos : Position) (value : Float)
  /-- The value of a variable. -/
  | name (pos : Position) (id : String)
  /-- Two operands joined by an operator. -/
  | binary (pos : Position) (op : Operator) (left right : Tree)
  /-- The factorial of an operand. -/
  | factorial (pos : Position) (operand : Tree)
  /-- An expression in parentheses. -/
  | group (pos : Position) (inner : Tree)
  /-- The absent expression, which stands for zero. -/
  | empty (pos : Position)
  /-- The statement that consists of an expression alone. -/
  | bare (pos : Position) (body : Tree)
  /-- The statement that gives a variable the value of an expression. -/
  | assign (pos : Position) (id : String) (body : Tree)
  /-- The statement that prints the value of an expression. -/
  | print (pos : Position) (body : Tree)
  /-- A tree of a kind that the language does not use. -/
  | other (pos : Position) (kind : String) (value : Value) (children : List Tree)

/-- The sum of the numbers in a list. -/
def total : List Nat → Nat
  | [] => 0
  | n :: ns => n + total ns

@[simp] theorem total_nil : total [] = 0 := rfl

@[simp] theorem total_cons (n : Nat) (ns : List Nat) : total (n :: ns) = n + total ns := rfl

theorem total_append (ms ns : List Nat) : total (ms ++ ns) = total ms + total ns := by
  induction ms with
  | nil => simp
  | cons m ms ih => simp [ih, Nat.add_assoc]

namespace Tree

/-! ## The parts of a tree -/

/-- The name of the kind of a tree. -/
def kind : Tree → String
  | .number .. => "number"
  | .name .. => "variable"
  | .binary _ op _ _ => op.kind
  | .factorial .. => "factorial"
  | .group .. => "group"
  | .empty .. => "empty"
  | .bare .. => "expr_stmt"
  | .assign .. => "assign"
  | .print .. => "print"
  | .other _ kind _ _ => kind

/-- The value at the root of a tree. -/
def value : Tree → Value
  | .number _ value => .number value
  | .name _ id => .text id
  | .assign _ id _ => .text id
  | .other _ _ value _ => value
  | _ => .absent

/-- Where a tree starts, or for an operator where the operator stands. -/
def pos : Tree → Position
  | .number pos _ | .name pos _ | .binary pos _ _ _ | .factorial pos _ | .group pos _
  | .empty pos | .bare pos _ | .assign pos _ _ | .print pos _ | .other pos _ _ _ => pos

/-- The children of a tree in order. -/
def children : Tree → List Tree
  | .number .. | .name .. | .empty .. => []
  | .binary _ _ left right => [left, right]
  | .factorial _ child | .group _ child | .bare _ child | .assign _ _ child
  | .print _ child => [child]
  | .other _ _ _ children => children

/-- The name that a tree reads or binds. -/
def id? : Tree → Option String
  | .name _ id => some id
  | .assign _ id _ => some id
  | _ => none

/-- The left operand. -/
def left? : Tree → Option Tree
  | .binary _ _ left _ => some left
  | _ => none

/-- The right operand. -/
def right? : Tree → Option Tree
  | .binary _ _ _ right => some right
  | _ => none

/-- The number that is raised to a power. -/
def base? : Tree → Option Tree
  | .binary _ .power left _ => some left
  | _ => none

/-- The exponent of a power. -/
def exponent? : Tree → Option Tree
  | .binary _ .power _ right => some right
  | _ => none

/-- The only operand of a tree that has one and no name. -/
def operand? : Tree → Option Tree
  | .factorial _ child | .group _ child | .bare _ child | .print _ child => some child
  | _ => none

/-- What stands in parentheses. -/
def inner? : Tree → Option Tree
  | .group _ inner => some inner
  | _ => none

/-- The expression of a statement. -/
def body? : Tree → Option Tree
  | .bare _ body | .assign _ _ body | .print _ body => some body
  | _ => none

/-! ## Folds -/

section Fold

variable {β : Type}

mutual

/-- Combines the results for the children of a tree with the tree itself, from the leaves up. -/
def fold (f : Tree → List β → β) : Tree → β
  | .number pos value => f (.number pos value) []
  | .name pos id => f (.name pos id) []
  | .binary pos op left right => f (.binary pos op left right) [fold f left, fold f right]
  | .factorial pos child => f (.factorial pos child) [fold f child]
  | .group pos child => f (.group pos child) [fold f child]
  | .empty pos => f (.empty pos) []
  | .bare pos child => f (.bare pos child) [fold f child]
  | .assign pos id child => f (.assign pos id child) [fold f child]
  | .print pos child => f (.print pos child) [fold f child]
  | .other pos kind value children => f (.other pos kind value children) (foldAll f children)

/-- The results for a list of trees. -/
def foldAll (f : Tree → List β → β) : List Tree → List β
  | [] => []
  | t :: ts => fold f t :: foldAll f ts

end

theorem foldAll_eq_map (f : Tree → List β → β) (ts : List Tree) :
    foldAll f ts = ts.map (fold f) := by
  induction ts with
  | nil => rfl
  | cons t ts ih => simp [foldAll, ih]

/-- A fold is determined by what it makes of a tree and the results for its children. -/
theorem fold_eq (f : Tree → List β → β) (t : Tree) :
    t.fold f = f t (t.children.map (fold f)) := by
  cases t <;> simp [fold, children, foldAll_eq_map]

end Fold

/-- Number of trees in a tree, itself included. -/
def size : Tree → Nat :=
  fold fun _ sizes => 1 + total sizes

/-- Number of trees on the longest way from the root to a leaf. -/
def height : Tree → Nat :=
  fold fun _ heights => 1 + heights.foldl max 0

theorem size_eq (t : Tree) : t.size = 1 + total (t.children.map size) := by
  exact fold_eq _ t

theorem height_eq (t : Tree) : t.height = 1 + (t.children.map height).foldl max 0 := by
  exact fold_eq _ t

theorem size_le_total_of_mem {child : Tree} {ts : List Tree} (h : child ∈ ts) :
    child.size ≤ total (ts.map size) := by
  induction ts with
  | nil => cases h
  | cons t ts ih =>
    simp only [List.map_cons, total_cons]
    rcases List.mem_cons.1 h with rfl | hRest
    · exact Nat.le_add_right _ _
    · exact Nat.le_trans (ih hRest) (Nat.le_add_left _ _)

/-- A child is smaller than its parent. -/
theorem size_lt_of_mem_children {t child : Tree} (h : child ∈ t.children) :
    child.size < t.size := by
  have hLe := size_le_total_of_mem h
  rw [size_eq t]
  omega

/-- What holds of a tree as soon as it holds of its children holds of every tree. -/
theorem induction_children {p : Tree → Prop}
    (step : ∀ t : Tree, (∀ child ∈ t.children, p child) → p t) (t : Tree) : p t :=
  step t fun child h =>
    have : child.size < t.size := size_lt_of_mem_children h
    induction_children step child
termination_by t.size

/-- Whether two trees have the same kinds, values, positions and shape. Numbers are compared as
numbers. -/
def same : Tree → Tree → Bool :=
  fold fun t comparisons other =>
    t.kind == other.kind
      && t.value.same other.value
      && t.pos == other.pos
      && comparisons.length == other.children.length
      && (List.zipWith (fun compare child => compare child) comparisons other.children).all id

/-- Whether two lists of trees are the same, tree by tree. -/
def sameAll (ts us : List Tree) : Bool :=
  ts.length == us.length && (List.zipWith same ts us).all id

end Tree

end Reckoner
