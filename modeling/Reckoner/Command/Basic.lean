import Reckoner.Command.Job
import Reckoner.Command.Options
import Reckoner.Session.Basic

/-!
# The command

The arguments decide whether the command starts a session, does a job, or shows how it is used.
Debug records are written if an option or the log level asks for them.
-/

namespace Reckoner.Command

/-! ## Log levels -/

/-- What a log level means for debug records. -/
inductive LogLevel
  /-- Debug records are left out. -/
  | quiet
  /-- Debug records are written. -/
  | debug
  /-- The name stands for something that is no level. -/
  | invalid
  deriving DecidableEq, Repr

/-- The upper case of a character, for comparison with names in ASCII capitals. The long s and
the dotless i are the only other characters with a capital in ASCII. -/
def capital (c : Char) : Char :=
  if c == 'ſ' then 'S' else if c == 'ı' then 'I' else c.toUpper

/-- The level with the given name, in upper or lower case. -/
def LogLevel.ofName (name : String) : LogLevel :=
  let capitals := name.map capital
  if capitals == "DEBUG" || capitals == "NOTSET" then .debug
  else if capitals == "BASIC_FORMAT" then .invalid
  else .quiet

/-- Whether debug records are written, or nothing if the level is invalid. An option for debug
records makes the level irrelevant. -/
def recording? (verbose : Bool) (levelName? : Option String) : Option Bool :=
  if verbose then some true
  else
    match (levelName?.map LogLevel.ofName).getD .quiet with
    | .quiet => some false
    | .debug => some true
    | .invalid => none

/-- The complaint about an invalid level. -/
def invalidLevel : String := "Unknown level: '%(levelname)s:%(name)s:%(message)s'"

/-! ## Running the command -/

/-- How the command ends. -/
inductive Ending
  /-- It comes to its end. -/
  | returned
  /-- It exits with a status. -/
  | exited (status : Nat)
  /-- It breaks off because of an invalid log level. -/
  | broken (message : String)
  deriving DecidableEq, Repr

/-- What the command is going to do. -/
inductive Plan
  /-- Show something and exit. -/
  | answer (outputs : List Output) (ending : Ending)
  /-- Start a session. -/
  | session (verbose recording : Bool)
  /-- Do a job. -/
  | job (job : Job) (recording : Bool)

/-- The plan for the given choices. -/
def Options.plan (o : Options) (levelName? : Option String) : Plan :=
  match recording? o.verbose levelName? with
  | none => .answer [] (.broken invalidLevel)
  | some recording =>
    match o.repl, o.source? with
    | false, some source => .job ⟨source, o.string, o.tokens, o.ast, o.pretty⟩ recording
    | _, _ => .session o.verbose recording

/-- The plan for the given arguments. -/
def Plan.ofArguments (arguments : List String) (levelName? : Option String) : Plan :=
  match Request.ofArguments arguments with
  | .ok .help => .answer [.text helpText] (.exited 0)
  | .ok (.options o) => o.plan levelName?
  | .error e => .answer [.complaint e.report] (.exited 2)

/-- Leaves debug records out unless they are asked for. -/
def keepRecords (recording : Bool) (outputs : List Output) : List Output :=
  outputs.filter fun output =>
    match output with
    | .record _ => recording
    | _ => true

/-- Does a job as the whole command: an error is reported on the standard error. -/
def runJob (job : Job) (recording : Bool) (read : FileReader) : List Output × Ending :=
  let result := job.run read
  let outputs := keepRecords recording result.outputs
  match result.outcome with
  | .ok _ => (outputs, .returned)
  | .error e => (outputs ++ [.complaint ("Error: " ++ e.message ++ "\n")], .exited 1)

/-- Carries out a plan with the given files and input. -/
def Plan.run (plan : Plan) (read : FileReader) (input : String) : List Output × Ending :=
  match plan with
  | .answer outputs ending => (outputs, ending)
  | .session verbose recording => (Session.play verbose recording input, .returned)
  | .job work recording => runJob work recording read

/-- Runs the command. -/
def run (arguments : List String) (levelName? : Option String) (read : FileReader)
    (input : String) : List Output × Ending :=
  (Plan.ofArguments arguments levelName?).run read input

end Reckoner.Command
