import Reckoner.Command.Basic
import Reckoner.Proofs.Parse.Diagnosis
import Reckoner.Proofs.Session.Batch

/-!
# The command does what a run does

The command parses and runs a program on its own account. It writes each printed value as a line on
the standard output. On the standard error it writes nothing but the error with which the program
ends, if it ends with one. A heading changes nothing else. So all that the command shows of a
program is what its run says.
-/

namespace Reckoner

/-! ## Errors of a run -/

namespace RunError

/-- The wording and the position of an error. -/
def diagnostic? : RunError → Option Diagnostic
  | .parse failure => failure.diagnostic?
  | .eval error => some error.diagnostic

theorem message_of_diagnostic {e : RunError} {d : Diagnostic} (h : e.diagnostic? = some d) :
    e.message = d.message := by
  cases e with
  | parse failure => exact ParseFailure.message_eq h
  | eval error => exact congrArg Diagnostic.message (Option.some.inj h)

end RunError

theorem exists_diagnostic_of_run {env : Environment} {source : String} {e : RunError}
    (h : (run env source).error? = some e) : ∃ d, e.diagnostic? = some d := by
  cases hparse : (parseSource source).1 with
  | error f =>
      rw [(run_of_error hparse env).1] at h
      cases h
      exact exists_diagnostic_of_parseSource hparse
  | ok statements =>
      rw [(run_of_ok hparse env).1, Option.map_eq_some_iff] at h
      obtain ⟨error, -, rfl⟩ := h
      exact ⟨error.diagnostic, rfl⟩

namespace Command

/-! ## Records that are left out -/

section Records

variable (outputs : List Output)

theorem standardText_cons (output : Output) :
    Output.standardText (output :: outputs) = output.standard ++ Output.standardText outputs := by
  rw [Output.standardText, List.map_cons, String.join_cons]
  rfl

theorem standardText_keepRecords (recording : Bool) :
    Output.standardText (keepRecords recording outputs) = Output.standardText outputs := by
  induction outputs with
  | nil => rfl
  | cons output outputs ih =>
      rw [standardText_cons, ← ih]
      cases output with
      | record event =>
          cases recording with
          | false => exact String.empty_append.symm
          | true => exact standardText_cons _ _
      | _ => exact standardText_cons _ _

theorem standardText_map_record (events : List Event) :
    Output.standardText (events.map .record) = "" :=
  Output.standardText_records true events

theorem standardText_complaint (content : String) :
    Output.standardText [.complaint content] = "" := by
  simp [Output.standardText, Output.standard]

theorem errorText_concat (time content : String) :
    Output.errorText time (outputs ++ [.complaint content]) =
      Output.errorText time outputs ++ content := by
  simp [Output.errorText, Output.error]

/-- Apart from records only complaints go to the standard error. -/
theorem errorText_keepRecords (time : String) (h : ∀ content, .complaint content ∉ outputs) :
    Output.errorText time (keepRecords false outputs) = "" := by
  induction outputs with
  | nil => rfl
  | cons output outputs ih =>
      have hrest := ih fun content hmem => h content (List.mem_cons_of_mem output hmem)
      cases output with
      | text content =>
          have hkept : keepRecords false (.text content :: outputs) =
              .text content :: keepRecords false outputs := rfl
          rw [hkept, Output.errorText, List.map_cons, String.join_cons]
          exact hrest
      | complaint content => exact absurd List.mem_cons_self (h content)
      | record event => exact hrest

end Records

/-! ## Jobs -/

/-- The job of running a program that is given literally. -/
def Job.literally (source : String) (pretty : Bool) : Job :=
  ⟨source, true, false, false, pretty⟩

/-- The heading above what a program prints. -/
def banner (pretty : Bool) (source : String) : String :=
  if pretty && (parseSource source).1.isOk then "<<< OUTPUT >>>" ++ "\n" else ""

section Jobs

variable (source : String) (pretty : Bool) (read : FileReader)

theorem standardText_headings (job : Job) (text : String) :
    Output.standardText (job.headings (.text text)) = if job.pretty then text else "" := by
  cases h : job.pretty <;> simp [Job.headings, h, Output.standardText, Output.standard]

theorem outcome_runStatements (job : Job) (statements : List Tree) :
    (job.runStatements statements).outcome =
      let outcome := interpret .empty statements
      match outcome.error?.map RunError.eval with
      | some e => .error (.program e)
      | none => .ok (some ⟨outcome.effects, none, outcome.environment⟩) := by
  rw [Job.runStatements]
  rcases interpret .empty statements with ⟨effects, _ | e, env⟩ <;> rfl

/-- A job that runs a program shows what the run has printed and ends as the run does. -/
theorem run_literally :
    let result := (Job.literally source pretty).run read
    let library := Reckoner.run .empty source
    Output.standardText result.outputs =
      banner pretty source ++
        String.join (library.printed.map fun value => Number.plainText value ++ "\n") ∧
    (∀ content, .complaint content ∉ result.outputs) ∧
    result.outcome =
      match library.error? with
      | some e => .error (.program e)
      | none => .ok (some ⟨library.effects, none, library.environment⟩) := by
  intro result library
  -- Job and run parse the program each for itself, and both are computed from what that gives.
  rcases hparse : parseSource source with ⟨failure | statements, trail⟩
  · have hresult : result =
        ⟨trail.toList.map .record, .error (.program (.parse failure))⟩ := by
      simp [result, Job.literally, Job.run, Job.text, Job.runText, hparse]
    have hlibrary : library = ⟨[], some (.parse failure), .empty, trail.toList⟩ := by
      simp [library, Reckoner.run, runSource, hparse]
    rw [hresult, hlibrary]
    refine ⟨?_, by simp, rfl⟩
    rw [standardText_map_record]
    simp [banner, hparse, Except.isOk, Except.toBool, Run.printed]
  · let outcome := interpret .empty statements
    let events := trail.toList ++ [.counted .command statements.length]
    let job := Job.literally source pretty
    have hresult : result =
        ⟨events.map .record ++ (job.runStatements statements).outputs,
          (job.runStatements statements).outcome⟩ := by
      simp [result, job, events, Job.literally, Job.run, Job.text, Job.runText, hparse]
    have herror : library.error? = outcome.error?.map .eval := by
      simp [library, outcome, Reckoner.run, runSource, hparse]
    have heffects : library.effects = outcome.effects := by
      simp [library, outcome, Reckoner.run, runSource, hparse]
    have henv : library.environment = outcome.environment := by
      simp [library, outcome, Reckoner.run, runSource, hparse]
    have hlines : outcome.printed.map (fun value => Output.line (Number.plainText value)) =
        (library.printed.map Number.plainText).map Output.line := by
      rw [List.map_map, Run.printed, heffects]
      rfl
    have hbanner : Output.standardText (job.headings (.line "<<< OUTPUT >>>")) =
        banner pretty source := by
      rw [Output.line, standardText_headings, banner, hparse]
      cases pretty <;> rfl
    rw [hresult, herror, heffects, henv]
    refine ⟨?_, ?_, ?_⟩
    · simp only [Job.runStatements, Output.standardText_append, standardText_map_record]
      rw [hbanner, hlines, Output.standardText_lines, List.map_map]
      simp [Function.comp_def]
    · intro content
      cases hpretty : pretty <;>
        simp [Job.runStatements, Job.headings, job, Job.literally, hpretty, Output.line]
    · exact outcome_runStatements job statements

end Jobs

/-! ## The command -/

/-- What the options choose that ask for running a program that is given literally. -/
def Options.literally (source : String) (pretty : Bool) : Options :=
  { Options.default with string := true, pretty := pretty, source? := some source }

/-- After a double hyphen every text is accepted as a program. -/
theorem ofArguments_hyphens (source : String) :
    Request.ofArguments ["-s", "--", source] = .ok (.options (.literally source false)) := by
  rfl

theorem run_of_arguments {arguments : List String} {source : String} {pretty : Bool}
    (h : Request.ofArguments arguments = .ok (.options (.literally source pretty)))
    (read : FileReader) (input : String) :
    run arguments none read input = runJob (.literally source pretty) false read := by
  simp [run, Plan.ofArguments, h, Options.plan, Options.literally, Options.default, recording?,
    Plan.run, Job.literally]

/-- What the command shows of a program: its printed values and its error. -/
theorem runJob_literally (source : String) (pretty : Bool) (read : FileReader) (time : String) :
    let library := Reckoner.run .empty source
    let shown := runJob (.literally source pretty) false read
    Output.standardText shown.1 =
      banner pretty source ++
        String.join (library.printed.map fun value => Number.plainText value ++ "\n") ∧
    (library.error? = none → Output.errorText time shown.1 = "" ∧ shown.2 = .returned) ∧
    ∀ e, library.error? = some e →
      Output.errorText time shown.1 = "Error: " ++ e.message ++ "\n" ∧ shown.2 = .exited 1 := by
  intro library shown
  obtain ⟨hstandard, hcomplaints, houtcome⟩ := run_literally source pretty read
  let kept := keepRecords false ((Job.literally source pretty).run read).outputs
  have hkept := standardText_keepRecords ((Job.literally source pretty).run read).outputs false
  have hsilent : Output.errorText time kept = "" := errorText_keepRecords _ time hcomplaints
  cases hlibrary : library.error? with
  | none =>
      have hshown : shown = (kept, .returned) := by
        simp only [shown, runJob, houtcome, library, hlibrary, kept]
      rw [hshown]
      exact ⟨hkept.trans hstandard, fun _ => ⟨hsilent, rfl⟩,
        fun e he => (Option.some_ne_none e he.symm).elim⟩
  | some e =>
      have hshown : shown =
          (kept ++ [.complaint ("Error: " ++ e.message ++ "\n")], .exited 1) := by
        simp only [shown, runJob, houtcome, library, hlibrary, kept, JobError.message]
      rw [hshown]
      refine ⟨?_, fun h => (Option.some_ne_none e h).elim, ?_⟩
      · rw [Output.standardText_append, standardText_complaint, String.append_empty, hkept,
          hstandard]
      · rintro e' ⟨⟩
        exact ⟨by rw [errorText_concat, hsilent, String.empty_append], rfl⟩

/-- The command agrees with a run, for all arguments that ask for a literal program and, apart from
headings, for nothing else; any program can be given so. On the standard output stands a line for
each printed value. If the run succeeds, nothing stands on the standard error, and the job ends with
the variables and the printed values of the run. If it fails, the command exits with the status one,
and the only line on the standard error is the error of the run, with its position unless the line
is zero. With headings nothing changes but for one line above the values, which stands there if the
program parses. -/
theorem command_agrees_with_run (source : String) (arguments prettyArguments : List String)
    (read : FileReader) (input time : String)
    (harguments : Request.ofArguments arguments = .ok (.options (.literally source false)))
    (hpretty : Request.ofArguments prettyArguments = .ok (.options (.literally source true))) :
    let library := Reckoner.run .empty source
    let shown := run arguments none read input
    let prettyShown := run prettyArguments none read input
    let result := (Job.literally source false).run read
    Request.ofArguments ["-s", "--", source] = .ok (.options (.literally source false)) ∧
    Output.standardText shown.1 =
      String.join (library.printed.map fun value => Number.plainText value ++ "\n") ∧
    (match library.error? with
      | none =>
        shown.2 = .returned ∧ Output.errorText time shown.1 = "" ∧
          ∃ outcome, result.outcome = .ok (some outcome) ∧
            outcome.environment = library.environment ∧ outcome.printed = library.printed
      | some e =>
        shown.2 = .exited 1 ∧ Output.errorText time shown.1 = "Error: " ++ e.message ++ "\n" ∧
          result.outcome = .error (.program e) ∧
          ∃ d, e.diagnostic? = some d ∧
            e.message = d.text ++
              if d.pos.line = 0 then ""
              else " at line " ++ toString d.pos.line ++ ", col " ++ toString d.pos.col) ∧
    Output.standardText prettyShown.1 =
      (if (parseSource source).1.isOk then "<<< OUTPUT >>>" ++ "\n" else "") ++
        Output.standardText shown.1 ∧
    Output.errorText time prettyShown.1 = Output.errorText time shown.1 ∧
    prettyShown.2 = shown.2 ∧
    ((Job.literally source true).run read).outcome = result.outcome := by
  intro library shown prettyShown result
  obtain ⟨hstandard, hreturned, hexited⟩ := runJob_literally source false read time
  obtain ⟨hstandard', hreturned', hexited'⟩ := runJob_literally source true read time
  rw [← run_of_arguments harguments read input] at hstandard hreturned hexited
  rw [← run_of_arguments hpretty read input] at hstandard' hreturned' hexited'
  have hplain : banner false source = "" := rfl
  rw [hplain, String.empty_append] at hstandard
  obtain ⟨-, -, houtcome⟩ := run_literally source false read
  obtain ⟨-, -, houtcome'⟩ := run_literally source true read
  refine ⟨ofArguments_hyphens source, hstandard, ?_, ?_, ?_, ?_, houtcome'.trans houtcome.symm⟩
  · cases herror : library.error? with
    | none =>
        obtain ⟨hsilent, hending⟩ := hreturned herror
        simp only [library] at herror
        rw [herror] at houtcome
        exact ⟨hending, hsilent, _, houtcome, rfl, rfl⟩
    | some e =>
        obtain ⟨hcomplaint, hending⟩ := hexited e herror
        obtain ⟨d, hd⟩ := exists_diagnostic_of_run herror
        simp only [library] at herror
        rw [herror] at houtcome
        refine ⟨hending, hcomplaint, houtcome, d, hd, ?_⟩
        rw [RunError.message_of_diagnostic hd, Diagnostic.message]
        split
        · exact String.append_empty.symm
        · simp only [String.append_assoc]
  · have hbanner : banner true source =
        if (parseSource source).1.isOk then "<<< OUTPUT >>>" ++ "\n" else "" := rfl
    rw [hstandard', hbanner, hstandard]
  · cases herror : library.error? with
    | none => rw [(hreturned herror).1, (hreturned' herror).1]
    | some e => rw [(hexited e herror).1, (hexited' e herror).1]
  · cases herror : library.error? with
    | none => rw [(hreturned herror).2, (hreturned' herror).2]
    | some e => rw [(hexited e herror).2, (hexited' e herror).2]

/-- A program that prints a value and then fails. -/
theorem command_agrees_with_run_halfway :
    let source := "print 1; print x"
    let shown := run ["-s", source] none (fun _ => .error .missing) ""
    Output.standardText shown.1 = "1\n" ∧
      Output.errorText "" shown.1 = "Error: Undefined variable: x at line 1, col 16\n" ∧
      shown.2 = .exited 1 := by
  intro source shown
  have harguments :
      Request.ofArguments ["-s", source] = .ok (.options (.literally source false)) := by
    decide +kernel
  have hpretty :
      Request.ofArguments ["-sp", source] = .ok (.options (.literally source true)) := by
    decide +kernel
  have herror : (Reckoner.run .empty source).error? =
      some (.eval ⟨.undefinedVariable "x", ⟨1, 16⟩⟩) := by
    decide +kernel
  have hprinted : (Reckoner.run .empty source).printed = [1] := by decide +kernel
  obtain ⟨-, hstandard, hends, -⟩ := command_agrees_with_run source ["-s", source]
    ["-sp", source] (fun _ => .error .missing) "" "" harguments hpretty
  rw [hprinted] at hstandard
  rw [herror] at hends
  refine ⟨hstandard.trans (by decide +kernel), hends.2.1.trans (by decide +kernel), hends.1⟩

end Command

end Reckoner
