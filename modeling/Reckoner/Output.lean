import Reckoner.Trace

/-!
# Output

What a session or a command writes is a list of pieces: text for the standard output, complaints
for the standard error, and debug records, which go to the standard error too.
-/

namespace Reckoner

/-- A piece of output. -/
inductive Output
  /-- Text for the standard output. -/
  | text (content : String)
  /-- Text for the standard error. -/
  | complaint (content : String)
  /-- A debug record. -/
  | record (event : Event)
  deriving DecidableEq

namespace Output

/-- A line for the standard output. -/
def line (content : String) : Output :=
  .text (content ++ "\n")

/-- A debug record in one line, with the given time stamp. -/
def recordLine (time : String) (event : Event) : String :=
  time ++ " [DEBUG] " ++ event.part.label ++ ": " ++ event.message ++ "\n"

/-- What a piece adds to the standard output. -/
def standard : Output → String
  | .text content => content
  | _ => ""

/-- What a piece adds to the standard error, with the given time stamp. -/
def error (time : String) : Output → String
  | .text _ => ""
  | .complaint content => content
  | .record event => recordLine time event

/-- The records of a list of events, if recording is on. -/
def records (recording : Bool) (events : List Event) : List Output :=
  if recording then events.map .record else []

/-- All that is written to the standard output. -/
def standardText (outputs : List Output) : String :=
  String.join (outputs.map standard)

/-- All that is written to the standard error. -/
def errorText (time : String) (outputs : List Output) : String :=
  String.join (outputs.map (error time))

end Output

end Reckoner
