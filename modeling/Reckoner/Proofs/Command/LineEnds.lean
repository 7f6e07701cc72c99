import Reckoner.Proofs.Command.Agreement
import Reckoner.Proofs.Parse.Depth
import Reckoner.Proofs.Scan.LineEnds
import Reckoner.Proofs.Text.Encoding

/-!
# Programs with other line ends

A file is read with its line ends brought to newlines, a program that is given literally is not.
Stage by stage this makes no difference: the tokens are the same but for the columns of newlines, no
tree holds the position of a newline, and what is shown depends on the trees alone.
-/

namespace Reckoner

open Text (ReturnsPaired normalizeNewlines)

/-! ## Statements -/

section Statements

variable {ts us : List Token} {statements : List Tree}

theorem eq_of_sameBesidesBreak (h : List.Forall₂ Token.SameBesidesBreak ts us)
    (hkinds : ∀ t ∈ ts, t.kind ≠ .terminator) : us = ts := by
  induction h with
  | nil => rfl
  | cons ht _ ih =>
      rw [List.forall_mem_cons] at hkinds
      rw [ht.eq hkinds.1, ih hkinds.2]

/-- Where the newlines stand in their lines does not matter for the trees. -/
theorem Tree.Layout.moveBreaks (h : Layout statements ts) (hall : ∀ t ∈ statements, t.IsStatement)
    (hsame : List.Forall₂ Token.SameBesidesBreak ts us) : Layout statements us := by
  induction h generalizing us with
  | nil =>
      cases hsame
      exact .nil
  | skip hk _ ih =>
      cases hsame with
      | cons ht hts => exact .skip (ht.kind_eq.trans hk) (ih hall hts)
  | @last statement ts hspells =>
      rw [eq_of_sameBesidesBreak hsame (kind_ne_terminator (hall statement (by simp)) hspells)]
      exact .last hspells
  | @cons statement xs t statements ts hspells hk _ ih =>
      rw [List.forall_mem_cons] at hall
      have hbefore := List.forall₂_take_append us xs (t :: ts) hsame.flip
      have hafter := List.forall₂_drop_append us xs (t :: ts) hsame.flip
      rw [← List.take_append_drop xs.length us,
        eq_of_sameBesidesBreak hbefore.flip (kind_ne_terminator hall.1 hspells)]
      generalize us.drop xs.length = rest at hafter
      cases hafter with
      | cons ht hts => exact .cons hspells (ht.kind_eq.trans hk) (ih hall.2 hts.flip)

theorem parseSource_of_sameBesidesBreak {s t : String}
    (hsame : List.Forall₂ Token.SameBesidesBreak (tokenize s).tokens (tokenize t).tokens)
    (herror : (tokenize t).error? = (tokenize s).error?)
    (h : (parseSource s).1 = .ok statements) : (parseSource t).1 = .ok statements := by
  obtain ⟨hnone, hall, hlayout⟩ := layout_of_parseSource h
  have hlayout' := hlayout.moveBreaks hall hsame
  have hnesting := Tree.nesting_of_layout hlayout' fun u hu =>
    ⟨hall u hu, nesting_le_of_parseSource h u hu⟩
  exact (parseSource_eq_ok_iff hnesting).mpr ⟨herror.trans hnone, hall, hlayout'⟩

end Statements

theorem isOk_iff {ε α : Type} {result : Except ε α} :
    result.isOk = true ↔ ∃ a, result = .ok a := by
  cases result with
  | ok a => exact ⟨fun _ => ⟨a, rfl⟩, fun _ => rfl⟩
  | error e => exact ⟨fun h => (Bool.false_ne_true h).elim, fun ⟨a, h⟩ => by cases h⟩

section Normalized

variable {source : String} (hpaired : ReturnsPaired source.toList)

include hpaired

theorem parseSource_normalizeNewlines (statements : List Tree) :
    (parseSource (String.ofList (normalizeNewlines source.toList))).1 = .ok statements ↔
      (parseSource source).1 = .ok statements := by
  obtain ⟨hsame, herror⟩ := tokenize_normalizeNewlines hpaired
  constructor
  · exact parseSource_of_sameBesidesBreak (hsame.flip.imp fun _ _ h => h.symm) herror.symm
  · exact parseSource_of_sameBesidesBreak hsame herror

theorem isOk_normalizeNewlines :
    (parseSource (String.ofList (normalizeNewlines source.toList))).1.isOk =
      (parseSource source).1.isOk := by
  have hiff := parseSource_normalizeNewlines hpaired
  rw [Bool.eq_iff_iff, isOk_iff, isOk_iff]
  exact exists_congr hiff

theorem run_normalizeNewlines (env : Environment) :
    let given := run env source
    let normalized := run env (String.ofList (normalizeNewlines source.toList))
    normalized.environment = given.environment ∧ normalized.effects = given.effects ∧
      (normalized.error? = given.error? ∨
        ∃ f f', given.error? = some (.parse f) ∧ normalized.error? = some (.parse f')) := by
  intro given normalized
  have hiff := parseSource_normalizeNewlines hpaired
  cases hgiven : (parseSource source).1 with
  | ok statements =>
      obtain ⟨herror, henv, heffects⟩ := run_of_ok hgiven env
      obtain ⟨herror', henv', heffects'⟩ := run_of_ok ((hiff statements).mpr hgiven) env
      exact ⟨henv'.trans henv.symm, heffects'.trans heffects.symm,
        .inl (herror'.trans herror.symm)⟩
  | error f =>
      obtain ⟨herror, henv, heffects⟩ := run_of_error hgiven env
      cases hnormalized : (parseSource (String.ofList (normalizeNewlines source.toList))).1 with
      | ok statements =>
          rw [hiff, hgiven] at hnormalized
          cases hnormalized
      | error f' =>
          obtain ⟨herror', henv', heffects'⟩ := run_of_error hnormalized env
          exact ⟨henv'.trans henv.symm, heffects'.trans heffects.symm,
            .inr ⟨f, f', herror, herror'⟩⟩

end Normalized

/-! ## Files -/

namespace Command

/-- The job of running the program in a file. -/
def Job.filed (path : String) (pretty : Bool) : Job :=
  ⟨path, false, false, false, pretty⟩

/-- Whether a file with the name of a program holds the text. -/
structure Holds (read : FileReader) (path source : String) : Prop where
  noNull : '\x00' ∉ path.toList
  ending : fileEnding.toList <:+ path.toList
  bytes : read path = .ok source.toUTF8.data.toList

variable {read : FileReader} {path source : String}

theorem readText_of_holds (h : Holds read path source) :
    readText read path = .ok (String.ofList (normalizeNewlines source.toList)) := by
  have hnull : path.toList.contains '\x00' = false := by simpa using h.noNull
  simp only [readText, hnull, h.bytes, Text.Utf8.decode_toUTF8]
  rfl

/-- The program of a file is run like one that is given with other line ends. -/
theorem run_filed (h : Holds read path source) (pretty : Bool) :
    (Job.filed path pretty).run read =
      (Job.literally (String.ofList (normalizeNewlines source.toList)) pretty).run read := by
  have htext : (Job.filed path pretty).text read =
      .ok (String.ofList (normalizeNewlines source.toList)) := by
    have hending := List.isSuffixOf_iff_suffix.mpr h.ending
    simp only [Job.text, Job.filed, hending, Bool.false_eq_true, if_false, if_true]
    exact readText_of_holds h
  rw [Job.run, htext]
  rfl

/-- The program shows the same from a file as literally, and ends alike unless it does not parse. -/
theorem run_filed_similar (hpaired : ReturnsPaired source.toList) (hfile : Holds read path source)
    (pretty : Bool) :
    let given := (Job.literally source pretty).run read
    let filed := (Job.filed path pretty).run read
    Output.standardText filed.outputs = Output.standardText given.outputs ∧
      (filed.outcome = given.outcome ∨
        ∃ f f', given.outcome = .error (.program (.parse f)) ∧
          filed.outcome = .error (.program (.parse f'))) := by
  intro given filed
  obtain ⟨henv, heffects, hends⟩ := run_normalizeNewlines hpaired .empty
  obtain ⟨hstandard, -, houtcome⟩ := run_literally source pretty read
  obtain ⟨hstandard', -, houtcome'⟩ :=
    run_literally (String.ofList (normalizeNewlines source.toList)) pretty read
  rw [← run_filed hfile] at hstandard' houtcome'
  constructor
  · rw [hstandard, hstandard', banner, banner, isOk_normalizeNewlines hpaired, Run.printed,
      Run.printed, heffects]
  · rcases hends with hends | ⟨f, f', hgiven, hnormalized⟩
    · left
      rw [houtcome, houtcome', henv, heffects, hends]
    · right
      exact ⟨f, f', by rw [houtcome, hgiven], by rw [houtcome', hnormalized]⟩

theorem standardText_runJob (job : Job) (recording : Bool) (read : FileReader) :
    Output.standardText (runJob job recording read).1 =
      Output.standardText (job.run read).outputs := by
  rw [runJob]
  cases (job.run read).outcome with
  | ok _ => exact standardText_keepRecords _ recording
  | error e =>
      rw [Output.standardText_append, standardText_complaint, String.append_empty,
        standardText_keepRecords]

theorem ending_runJob {job job' : Job}
    (h : (job'.run read).outcome = (job.run read).outcome ∨
      ∃ f f', (job.run read).outcome = .error (.program (.parse f)) ∧
        (job'.run read).outcome = .error (.program (.parse f')))
    (recording : Bool) : (runJob job' recording read).2 = (runJob job recording read).2 := by
  rw [runJob, runJob]
  rcases h with h | ⟨f, f', h, h'⟩
  · rw [h]
    cases (job.run read).outcome with
    | ok _ => rfl
    | error _ => rfl
  · rw [h, h']

/-- Line ends are invisible. A text in which every carriage return has a newline right after it has,
once its line ends are brought to newlines as in a file, the same tokens, but for the columns of the
terminators, and the same error. It parses to the same statements, or both do not parse. Run in any
environment it leaves the same variables, prints the same values and ends with the same error, unless
both do not parse. So the command shows the same on its standard output and ends alike, whether the
text is given literally or in a file. -/
theorem line_ends_invisible (source path : String) (read : FileReader)
    (hpaired : ReturnsPaired source.toList) (hfile : Holds read path source) :
    let normalized := String.ofList (normalizeNewlines source.toList)
    readText read path = .ok normalized ∧
    List.Forall₂ Token.SameBesidesBreak (tokenize source).tokens (tokenize normalized).tokens ∧
    (tokenize normalized).error? = (tokenize source).error? ∧
    (∀ statements,
      (parseSource normalized).1 = .ok statements ↔ (parseSource source).1 = .ok statements) ∧
    (∀ env,
      (Reckoner.run env normalized).environment = (Reckoner.run env source).environment ∧
      (Reckoner.run env normalized).printed = (Reckoner.run env source).printed ∧
      ∀ e, (Reckoner.run env normalized).error? = some (.eval e) ↔
        (Reckoner.run env source).error? = some (.eval e)) ∧
    ∀ pretty,
      let given := (Job.literally source pretty).run read
      let filed := (Job.filed path pretty).run read
      Output.standardText filed.outputs = Output.standardText given.outputs ∧
      (filed.outcome = given.outcome ∨
        ∃ f f', given.outcome = .error (.program (.parse f)) ∧
          filed.outcome = .error (.program (.parse f'))) ∧
      ∀ recording,
        Output.standardText (runJob (.filed path pretty) recording read).1 =
          Output.standardText (runJob (.literally source pretty) recording read).1 ∧
        (runJob (.filed path pretty) recording read).2 =
          (runJob (.literally source pretty) recording read).2 := by
  intro normalized
  obtain ⟨hsame, herror⟩ := tokenize_normalizeNewlines hpaired
  have hparse := parseSource_normalizeNewlines hpaired
  refine ⟨readText_of_holds hfile, hsame, herror, hparse, ?_, ?_⟩
  · intro env
    obtain ⟨henv, heffects, hends⟩ := run_normalizeNewlines hpaired env
    refine ⟨henv, by rw [Run.printed, Run.printed, heffects], fun e => ?_⟩
    rcases hends with hends | ⟨f, f', hgiven, hnormalized⟩
    · rw [hends]
    · simp [hgiven, hnormalized, normalized]
  · intro pretty given filed
    obtain ⟨hshown, hsimilar⟩ := run_filed_similar hpaired hfile pretty
    refine ⟨hshown, hsimilar, fun recording => ⟨?_, ?_⟩⟩
    · rw [standardText_runJob, standardText_runJob]
      exact hshown
    · exact ending_runJob hsimilar recording

/-- A comment, a number and a name before a carriage return, in a program that fails at its end. -/
theorem line_ends_invisible_returns :
    let source := "x = 1 # one\r\nprint 2\r\nx\r\ny\r\n"
    let read : FileReader := fun _ => .ok source.toUTF8.data.toList
    ReturnsPaired source.toList ∧ Holds read "a.tally" source ∧
      Output.standardText ((Job.filed "a.tally" false).run read).outputs = "2\n" ∧
      (Reckoner.run .empty (String.ofList (normalizeNewlines source.toList))).error? =
        some (.eval ⟨.undefinedVariable "y", ⟨4, 1⟩⟩) := by
  intro source read
  have hpaired : ReturnsPaired source.toList := by decide +kernel
  have hfile : Holds read "a.tally" source := ⟨by decide, by decide, rfl⟩
  obtain ⟨-, -, -, -, hruns, hjobs⟩ := line_ends_invisible source "a.tally" read hpaired hfile
  refine ⟨hpaired, hfile, (hjobs false).1.trans ?_, ((hruns .empty).2.2 _).mpr ?_⟩
  · decide +kernel
  · decide +kernel

end Command

end Reckoner
