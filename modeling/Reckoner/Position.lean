/-!
# Positions and diagnostics

A position is a line and a column, both counted from one; line zero means that no position is
known. A diagnostic is a text with a position.
-/

namespace Reckoner

/-- A line and a column. -/
structure Position where
  line : Int
  col : Int
  deriving DecidableEq, Repr

/-- The position of what has none. -/
def Position.unknown : Position := ⟨0, 0⟩

/-- A text about something at a position. -/
structure Diagnostic where
  text : String
  pos : Position
  deriving DecidableEq, Repr

/-- The text followed by its position, unless the line is zero. -/
def Diagnostic.message (d : Diagnostic) : String :=
  if d.pos.line = 0 then d.text
  else d.text ++ " at line " ++ toString d.pos.line ++ ", col " ++ toString d.pos.col

end Reckoner
