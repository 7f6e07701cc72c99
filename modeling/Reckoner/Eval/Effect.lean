import Reckoner.Eval.Machine
import Reckoner.Trace

/-!
# Statements and their effects

A statement that succeeds has one effect: it has a value, it gives a variable a value, or it
prints a value. Statements run in order up to the first that fails; what ran before keeps its
effects.
-/

namespace Reckoner

/-- What a statement does. -/
inductive Effect
  /-- The statement has a value. -/
  | valued (value : Float)
  /-- A variable is given a value. -/
  | bound (id : String) (value : Float)
  /-- A value is printed. -/
  | printed (value : Float)
  deriving DecidableEq

namespace Effect

/-- The environment after an effect. -/
def apply (effect : Effect) (env : Environment) : Environment :=
  match effect with
  | .bound id value => env.insert id value
  | .valued _ => env
  | .printed _ => env

/-- The value that is printed. -/
def printed? : Effect → Option Float
  | .printed value => some value
  | _ => none

/-- The value of a statement that is an expression. -/
def valued? : Effect → Option Float
  | .valued value => some value
  | _ => none

/-- What is recorded of an effect. -/
def event? : Effect → Option Event
  | .valued _ => none
  | .bound id value => some (.bound id value)
  | .printed value => some (.printed value)

end Effect

/-- The effect of a statement. -/
def execute (env : Environment) : Tree → Except EvalError Effect
  | .bare _ body => (evaluate env body).map .valued
  | .assign _ id body => (evaluate env body).map (.bound id)
  | .print _ body => (evaluate env body).map .printed
  | t => .error ⟨.cannotExecute t.kind, t.pos⟩

/-- How a list of statements ends: the effects in order, the error of the statement that failed,
and the environment afterwards. -/
structure Outcome where
  effects : List Effect
  error? : Option EvalError
  environment : Environment

namespace Outcome

/-- The values that were printed. -/
def printed (outcome : Outcome) : List Float :=
  outcome.effects.filterMap Effect.printed?

/-- What is recorded. -/
def events (outcome : Outcome) : List Event :=
  outcome.effects.filterMap Effect.event?

end Outcome

/-- Runs statements in order up to the first that fails. -/
def interpret (env : Environment) : List Tree → Outcome
  | [] => ⟨[], none, env⟩
  | t :: ts =>
    match execute env t with
    | .error e => ⟨[], some e, env⟩
    | .ok effect =>
      let rest := interpret (effect.apply env) ts
      ⟨effect :: rest.effects, rest.error?, rest.environment⟩

end Reckoner
