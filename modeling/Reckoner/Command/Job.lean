import Reckoner.Command.Folder
import Reckoner.Eval.Program
import Reckoner.Output
import Reckoner.Text.Newline
import Reckoner.Text.Utf8
import Reckoner.Tree.Outline

/-!
# Jobs

A job works on one program: it runs the program, or lists its tokens, or shows its trees. The
program is given literally or in a file.
-/

namespace Reckoner.Command

/-- What has to be done with a program. -/
structure Job where
  /-- The program, or the path of its file. -/
  source : String
  /-- Whether the source is the program itself. -/
  literal : Bool
  /-- Whether to list the tokens only. -/
  tokens : Bool
  /-- Whether to show the trees only. -/
  ast : Bool
  /-- Whether to put headings above what is shown. -/
  pretty : Bool
  deriving DecidableEq, Repr

/-- Why a job fails. -/
inductive JobError
  /-- The file has not the name of a program. -/
  | unsupportedFile
  /-- The path holds the null character. -/
  | nullInPath
  /-- The file cannot be read. -/
  | file (error : FileError) (path : String)
  /-- The file is no text. -/
  | encoding (fault : Text.Utf8.Fault)
  /-- A tree is too high to be shown. -/
  | tooHigh
  /-- The program fails. -/
  | program (error : RunError)
  deriving DecidableEq

/-- The wording of an error. -/
def JobError.message : JobError → String
  | .unsupportedFile => "Only .tally files are supported."
  | .nullInPath => "embedded null byte"
  | .file error path => error.message path
  | .encoding fault => fault.message
  | .tooHigh => "AST is nested too deeply to print as JSON."
  | .program error => error.message

/-- How a job ends. A program that was run to its end leaves its effects. -/
structure JobResult where
  outputs : List Output
  outcome : Except JobError (Option Outcome)

/-- How files are read. -/
abbrev FileReader := String → Except FileError (List UInt8)

/-- The ending of the name of a program's file. -/
def fileEnding : String := ".tally"

/-- The text of a file, with line ends brought to line feeds. -/
def readText (read : FileReader) (path : String) : Except JobError String :=
  if path.toList.contains '\x00' then .error .nullInPath
  else
    match read path with
    | .error e => .error (.file e path)
    | .ok bytes =>
      match Text.Utf8.decode bytes with
      | .error fault => .error (.encoding fault)
      | .ok text => .ok (String.ofList (Text.normalizeNewlines text))

/-- A heading over three lines. -/
def heading (title : String) : Output :=
  let rule := String.ofList (List.replicate 20 '=')
  .line (rule ++ "\n" ++ title ++ "\n" ++ rule)

namespace Job

/-- The program of a job. -/
def text (job : Job) (read : FileReader) : Except JobError String :=
  if job.literal then .ok job.source
  else if fileEnding.toList.isSuffixOf job.source.toList then readText read job.source
  else .error .unsupportedFile

/-- The headings of a job, if it has any. -/
def headings (job : Job) (output : Output) : List Output :=
  if job.pretty then [output] else []

/-- The line that lists a token. -/
def tokenLine (token : Token) : String :=
  toString token.pos.line ++ ":" ++ toString token.pos.col ++ "\t" ++ token.kind.label ++ "\t" ++
    token.value.quoted

/-- Lists the tokens up to the first error. -/
def listTokens (job : Job) (source : String) : JobResult :=
  let found := tokenize source
  let listed := found.tokens.flatMap fun token =>
    [Output.record (.found token), .line (tokenLine token)]
  { outputs := job.headings (heading "Tokens") ++ listed
    outcome :=
      match found.error? with
      | some e => .error (.program (.parse (.scan e)))
      | none => .ok none }

/-- Shows the trees of parsed statements. -/
def showTrees (job : Job) (statements : List Tree) : JobResult :=
  let headings := job.headings (heading "AST")
  match Tree.records? statements with
  | some text => ⟨headings ++ [.line text], .ok none⟩
  | none => ⟨headings, .error .tooHigh⟩

/-- Runs parsed statements. -/
def runStatements (job : Job) (statements : List Tree) : JobResult :=
  let outcome := interpret Environment.empty statements
  let printed := outcome.printed.map fun value => Output.line (Number.plainText value)
  { outputs := job.headings (.line "<<< OUTPUT >>>") ++ outcome.events.map .record ++ printed
    outcome :=
      match outcome.error? with
      | some e => .error (.program (.eval e))
      | none => .ok (some outcome) }

/-- Works on the program with the given text. -/
def runText (job : Job) (source : String) : JobResult :=
  if job.tokens then job.listTokens source
  else
    match parseSource source with
    | (.error failure, trail) =>
      ⟨trail.toList.map .record, .error (.program (.parse failure))⟩
    | (.ok statements, trail) =>
      let recorded := trail.toList ++ [.counted .command statements.length]
      let result := if job.ast then job.showTrees statements else job.runStatements statements
      ⟨recorded.map .record ++ result.outputs, result.outcome⟩

/-- Does a job. -/
def run (job : Job) (read : FileReader) : JobResult :=
  match job.text read with
  | .ok source => job.runText source
  | .error e => ⟨[], .error e⟩

end Job

end Reckoner.Command
