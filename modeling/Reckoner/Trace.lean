import Reckoner.Token.Basic

/-!
# Debug records

What happens while a program is read and run can be recorded: each token as it is found, each
statement as it is parsed, each binding and each printed value.
-/

namespace Reckoner

/-- The parts of the program that record what they do. -/
inductive Part
  | scanner
  | parser
  | interpreter
  | session
  | command
  deriving DecidableEq, Repr

/-- The name under which a part records. -/
def Part.label : Part → String
  | .scanner => "tally.tally_lexer"
  | .parser => "tally.tally_parser"
  | .interpreter => "tally.tally_interpreter"
  | .session => "tally.tally_repl"
  | .command => "tally.tally_cli"

/-- Something that is recorded. -/
inductive Event
  /-- A token was found. -/
  | found (token : Token)
  /-- A statement of a kind was parsed. -/
  | parsed (kind : String) (pos : Position)
  /-- All statements were parsed, as counted by a part. -/
  | counted (part : Part) (statements : Nat)
  /-- A variable was given a value. -/
  | bound (id : String) (value : Float)
  /-- A value was printed. -/
  | printed (value : Float)
  /-- A line of a session failed. -/
  | failed (line : String)
  deriving DecidableEq

namespace Event

/-- The part that records an event. -/
def part : Event → Part
  | .found _ => .scanner
  | .parsed .. => .parser
  | .counted part _ => part
  | .bound .. => .interpreter
  | .printed _ => .interpreter
  | .failed _ => .session

/-- A position as it is recorded. -/
def place (pos : Position) : String :=
  toString pos.line ++ ":" ++ toString pos.col

/-- The wording of an event. -/
def message : Event → String
  | .found token => "token " ++ token.describe ++ " at " ++ place token.pos
  | .parsed kind pos => "parsed " ++ kind ++ " at " ++ place pos
  | .counted _ statements => "parsed " ++ toString statements ++ " statement(s)"
  | .bound id value => "bind " ++ id ++ " = " ++ Number.fullText value
  | .printed value => "print " ++ Number.fullText value
  | .failed line => "line failed: " ++ Text.quoted line

end Event

end Reckoner
