import Reckoner.Number.Arithmetic
import Reckoner.Number.Display
import Reckoner.Position

/-!
# Errors of evaluation

Evaluation fails at a variable without a value and at a factorial of something other than a whole
number from zero on. Trees that are no expressions cannot be evaluated, and trees that are no
statements cannot be executed.
-/

namespace Reckoner

/-- Why evaluation fails. -/
inductive EvalProblem
  /-- The variable has no value. -/
  | undefinedVariable (id : String)
  /-- The operand has no factorial. -/
  | noFactorial (operand : Float)
  /-- Trees of the kind have no value. -/
  | cannotEvaluate (kind : String)
  /-- Trees of the kind are no statements. -/
  | cannotExecute (kind : String)
  deriving DecidableEq

/-- The wording of a problem. -/
def EvalProblem.text : EvalProblem → String
  | .undefinedVariable id => "Undefined variable: " ++ id
  | .noFactorial operand =>
    "Factorial is only defined for non-negative whole numbers, got " ++ Number.plainText operand
  | .cannotEvaluate kind => "Cannot evaluate node kind '" ++ kind ++ "'"
  | .cannotExecute kind => "Cannot execute node kind '" ++ kind ++ "'"

/-- A problem with its position. -/
structure EvalError where
  problem : EvalProblem
  pos : Position
  deriving DecidableEq

/-- The wording of an error. -/
def EvalError.diagnostic (e : EvalError) : Diagnostic :=
  ⟨e.problem.text, e.pos⟩

/-- The factorial of an operand, or an error at the given position. -/
def factorialAt (pos : Position) (operand : Float) : Except EvalError Float :=
  match Number.factorial? operand with
  | some value => .ok value
  | none => .error ⟨.noFactorial operand, pos⟩

end Reckoner
