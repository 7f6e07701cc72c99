import Reckoner.Eval.Effect
import Reckoner.Parse.Rules

/-!
# Programs

A program is parsed as a whole before any of it runs, so that one that does not parse has no
effect.
-/

namespace Reckoner

/-- Why a program fails. -/
inductive RunError
  | parse (failure : ParseFailure)
  | eval (error : EvalError)
  deriving DecidableEq

/-- The wording of an error. -/
def RunError.message : RunError → String
  | .parse failure => failure.message
  | .eval error => error.diagnostic.message

/-- How the run of a program ends. -/
structure Run where
  effects : List Effect
  error? : Option RunError
  environment : Environment
  /-- What was recorded, in order. -/
  trail : List Event

namespace Run

/-- The values that were printed. -/
def printed (run : Run) : List Float :=
  run.effects.filterMap Effect.printed?

end Run

/-- Parses and runs a text on behalf of a part of the program. Nothing runs unless the whole text
parses. A part that counts the statements records their number. -/
def runSource (counter : Option Part) (env : Environment) (source : String) : Run :=
  match parseSource source with
  | (.error failure, trail) => ⟨[], some (.parse failure), env, trail.toList⟩
  | (.ok statements, trail) =>
    let outcome := interpret env statements
    let counted := (counter.map fun part => Event.counted part statements.length).toList
    ⟨outcome.effects, outcome.error?.map .eval, outcome.environment,
      trail.toList ++ counted ++ outcome.events⟩

/-- Parses and runs a text in an environment. -/
def run (env : Environment) (source : String) : Run :=
  runSource (some .interpreter) env source

end Reckoner
