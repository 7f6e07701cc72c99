import Reckoner.Eval.Program
import Reckoner.Eval.Workspace
import Reckoner.Output
import Reckoner.Text.Newline

/-!
# Sessions

In a session programs are typed line by line. The variables last from line to line. Values of
expressions are shown as well as printed values. A line that fails is reported, and the session
goes on with what the statements before the failure did. Some lines are commands to the session
itself.
-/

namespace Reckoner

/-- The state of a session. -/
structure Session where
  workspace : Workspace
  /-- Whether debug records were switched on in this session. -/
  verbose : Bool
  /-- Whether debug records are written in any case. -/
  recording : Bool

/-- The value that a session shows of an effect. -/
def Effect.shown? : Effect → Option Float
  | .valued value => some value
  | .printed value => some value
  | .bound .. => none

namespace Session

/-- What a typed line asks for. -/
inductive Typed
  /-- Nothing: the line is blank or a comment. -/
  | skip
  /-- To end the session. -/
  | leave
  /-- To list the variables. -/
  | variables
  /-- To switch debug records on or off. -/
  | toggle
  /-- To run a program. -/
  | run (source : String)
  deriving DecidableEq

/-- What a line asks for. Blanks at its ends do not count, and the word for switching debug
records may be in upper or lower case. -/
def Typed.ofLine (line : String) : Typed :=
  let source := String.ofList (Text.trim line.toList)
  if source.isEmpty || source.front == '#' then .skip
  else if source == "exit" || source == "quit" then .leave
  else if source == "vars" then .variables
  else if source.map Char.toLower == "verbose-mode" then .toggle
  else .run source

/-- The line at the start of a session. -/
def greeting : String := "Tally REPL. Type 'exit' or 'quit' to leave."

/-- The line at the end of a session. -/
def farewell : String := "Exiting Tally REPL."

/-- What stands before each typed line. -/
def prompt : String := ">>> "

/-- The state at the start of a session. -/
def start (verbose recording : Bool) : Session :=
  ⟨Workspace.empty, verbose, recording⟩

/-- A text moved to the right of a column of the given width. -/
def alignRight (width : Nat) (text : String) : String :=
  String.ofList (List.replicate (width - text.length) ' ') ++ text

/-- The lines that list the variables. -/
def variableLines (env : Environment) : List String :=
  if env.bindings.isEmpty then ["[vars] >>> No variables defined."]
  else env.sorted.map fun (id, value) => alignRight 12 id ++ " = " ++ Number.plainText value

/-- Whether debug records are written now. -/
def records (session : Session) : Bool :=
  session.recording || session.verbose

/-- How a session answers a line. -/
structure Reply where
  session : Session
  outputs : List Output
  leaving : Bool

/-- Runs a program in a session. -/
def runProgram (session : Session) (source : String) : Reply :=
  let run := runSource none session.workspace.environment source
  let shown := (run.effects.filterMap Effect.shown?).map fun value =>
    Output.line (Number.plainText value)
  let report :=
    match run.error? with
    | some error =>
      Output.records session.records [.failed source] ++ [.line ("[error] >>> " ++ error.message)]
    | none => []
  { session := { session with workspace := session.workspace.applyAll run.effects }
    outputs := Output.records session.records run.trail ++ shown ++ report
    leaving := false }

/-- The answer to a line. -/
def respond (session : Session) (line : String) : Reply :=
  match Typed.ofLine line with
  | .skip => ⟨session, [], false⟩
  | .leave => ⟨session, [.line farewell], true⟩
  | .variables => ⟨session, (variableLines session.workspace.environment).map .line, false⟩
  | .toggle =>
    let verbose := !session.verbose
    let state := if verbose then "ON" else "OFF"
    ⟨{ session with verbose := verbose }, [.line ("[mode] >>> Verbose mode " ++ state)], false⟩
  | .run source => session.runProgram source

/-- All that is written while the given lines are typed. When the lines end, by the end of the
input or by an interruption, so does the session. -/
def transcript (session : Session) : List String → List Output
  | [] => [.text prompt, .text "\n", .line farewell]
  | line :: lines =>
    let reply := session.respond line
    .text prompt :: reply.outputs ++
      (if reply.leaving then [] else reply.session.transcript lines)

/-- The lines of an input. -/
def inputLines (input : String) : List String :=
  (Text.lines (Text.normalizeNewlines input.toList)).map String.ofList

/-- All that is written in a session with the given input. -/
def play (verbose recording : Bool) (input : String) : List Output :=
  .line greeting :: (start verbose recording).transcript (inputLines input)

end Session

end Reckoner
