import Reckoner.Eval.Effect

/-!
# Workspaces

A workspace is what lasts from one program to the next: the variables with their values, and all
values that were printed.
-/

namespace Reckoner

/-- What lasts from one piece of program to the next: the variables and all printed values. -/
structure Workspace where
  environment : Environment
  printed : List Float

namespace Workspace

/-- The workspace in which nothing has happened. -/
def empty : Workspace := ⟨Environment.empty, []⟩

/-- The workspace after an effect. -/
def apply (workspace : Workspace) (effect : Effect) : Workspace :=
  ⟨effect.apply workspace.environment, workspace.printed ++ effect.printed?.toList⟩

/-- The workspace after a list of effects. -/
def applyAll (workspace : Workspace) (effects : List Effect) : Workspace :=
  effects.foldl apply workspace

end Workspace

end Reckoner
