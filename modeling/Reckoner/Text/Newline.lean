/-!
# Line ends

A line may end in a line feed, a carriage return or both. Files and typed input are first brought
to line feeds alone, and are then cut into lines.
-/

namespace Reckoner.Text

/-- Replaces every carriage return, together with a line feed right after it, by a line feed. -/
def normalizeNewlines : List Char → List Char
  | [] => []
  | '\r' :: '\n' :: rest => '\n' :: normalizeNewlines rest
  | '\r' :: rest => '\n' :: normalizeNewlines rest
  | c :: rest => c :: normalizeNewlines rest

/-- The lines of a text, without their line feeds. What stands after the last line feed is a line
if it is not empty. -/
def lines : List Char → List (List Char)
  | [] => []
  | '\n' :: rest => [] :: lines rest
  | c :: rest =>
    match lines rest with
    | [] => [[c]]
    | line :: others => (c :: line) :: others

end Reckoner.Text
