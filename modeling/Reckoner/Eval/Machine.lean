import Reckoner.Eval.Environment
import Reckoner.Eval.Error
import Reckoner.Tree.Basic

/-!
# Evaluation

The value of a tree is found from the values of its children by the rule of its root. Two
evaluators follow this. `Tree.eval` is the recursive one. `evaluate` works on a stack of pending
tasks and a stack of values, so that the height of a tree is not limited by the depth of
recursion.
-/

namespace Reckoner

/-- What an operator does to two values. -/
def Operator.apply : Operator → Float → Float → Float
  | .plus, left, right => left + right
  | .minus, left, right => left - right
  | .times, left, right => left * right
  | .over, left, right => Number.divide left right
  | .power, left, right => Number.power left right

namespace Tree

/-- The value of a tree whose children have the given values. -/
def rule (env : Environment) (t : Tree) (operands : List Float) : Except EvalError Float :=
  match t, operands with
  | .number _ value, [] => .ok value
  | .name pos id, [] =>
    match env.get? id with
    | some value => .ok value
    | none => .error ⟨.undefinedVariable id, pos⟩
  | .empty _, [] => .ok 0
  | .group _ _, [inner] => .ok inner
  | .binary _ op _ _, [left, right] => .ok (op.apply left right)
  | .factorial pos _, [operand] => factorialAt pos operand
  | t, _ => .error ⟨.cannotEvaluate t.kind, t.pos⟩

/-- The results of a list, or the first error in it. -/
def collect : List (Except EvalError Float) → Except EvalError (List Float)
  | [] => .ok []
  | .error e :: _ => .error e
  | .ok value :: rest =>
    match collect rest with
    | .ok values => .ok (value :: values)
    | .error e => .error e

/-- The value of a tree: the children are evaluated from left to right up to the first error,
then the rule of the root is applied. -/
def eval (env : Environment) : Tree → Except EvalError Float :=
  fold fun t results =>
    match collect results with
    | .ok operands => t.rule env operands
    | .error e => .error e

end Tree

/-! ## The machine -/

/-- A pending task. -/
inductive Task
  /-- The tree has to be evaluated. -/
  | visit (t : Tree)
  /-- The children of the tree have been evaluated and their values are on the stack. -/
  | finish (t : Tree)

namespace Task

/-- A bound on the number of steps for a task. -/
def cost : Task → Nat
  | .visit t => 2 * t.size
  | .finish _ => 1

theorem total_cost_visit (ts : List Tree) :
    total ((ts.map Task.visit).map cost) = 2 * total (ts.map Tree.size) := by
  induction ts with
  | nil => rfl
  | cons t ts ih =>
    simp only [List.map_cons, total_cons, ih, cost]
    omega

end Task

/-- Does the pending tasks from the first to the last. The last value is on top of the stack. -/
def runTasks (env : Environment) : List Task → List Float → Except EvalError (List Float)
  | [], values => .ok values
  | .visit t :: pending, values =>
    runTasks env (t.children.map .visit ++ .finish t :: pending) values
  | .finish t :: pending, values =>
    let arity := t.children.length
    match t.rule env (values.take arity).reverse with
    | .ok value => runTasks env pending (value :: values.drop arity)
    | .error e => .error e
termination_by pending => total (pending.map Task.cost)
decreasing_by
  · simp only [List.map_append, total_append, List.map_cons, total_cons, Task.total_cost_visit,
      Task.cost]
    rw [Tree.size_eq t]
    omega
  · simp [Task.cost]

/-- The value of a tree, found by the machine. -/
def evaluate (env : Environment) (t : Tree) : Except EvalError Float :=
  match runTasks env [.visit t] [] with
  | .ok (value :: _) => .ok value
  | .ok [] => .error ⟨.cannotEvaluate t.kind, t.pos⟩
  | .error e => .error e

end Reckoner
