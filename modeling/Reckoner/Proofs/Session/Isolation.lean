import Reckoner.Proofs.Eval.Exposure
import Reckoner.Proofs.Parse.Diagnosis
import Reckoner.Proofs.Session.Batch

/-!
# Lines that fail do not disturb a session

Whatever is typed, a session answers each line and goes on, until a line ends it or the input does.
A line that does not parse is reported and changes nothing. A line with a statement that fails is
reported after what the statements before it show, and keeps what they did. Later lines see the
session only as the line has left it, and cannot tell why.
-/

namespace Reckoner

namespace Session

/-- A line without the white space at its ends. -/
def stripped (line : String) : String :=
  String.ofList (Text.trim line.toList)

/-- Whether a line is blank or a comment. -/
def IsIdle (line : String) : Prop :=
  Text.trim line.toList = [] ∨ ∃ body, Text.trim line.toList = '#' :: body

/-- Whether a line ends the session. -/
def Leaves (line : String) : Prop :=
  stripped line = "exit" ∨ stripped line = "quit"

/-- Whether a line is run as a program. -/
def IsProgram (line : String) : Prop :=
  ¬ IsIdle line ∧ ¬ IsCommand line

/-- The session in which statements have succeeded whose expressions have the values. -/
def performed (s : Session) (statements : List Tree) (values : List Float) : Session :=
  { s with
    workspace :=
      { environment := s.workspace.environment.extend (Tree.bindings statements values)
        printed := s.workspace.printed ++ Tree.outputs statements values } }

/-- The lines that show the values of statements whose expressions have the values. -/
def echoed (statements : List Tree) (values : List Float) : List String :=
  (Tree.shown statements values).map Number.plainText

/-- How a session answers a line that does not end it: with which lines, and what it is then. -/
inductive Answers (s : Session) (line : String) : List String → Session → Prop
  | idle : IsIdle line → Answers s line [] s
  | listed :
      stripped line = "vars" → Answers s line (variableLines s.workspace.environment) s
  | toggled :
      (stripped line).map Char.toLower = "verbose-mode" →
        Answers s line ["[mode] >>> Verbose mode " ++ if s.verbose then "OFF" else "ON"]
          { s with verbose := !s.verbose }
  | refused {f : ParseFailure} {d : Diagnostic} :
      IsProgram line → (parseSource (stripped line)).1 = .error f → f.diagnostic? = some d →
        Answers s line ["[error] >>> " ++ d.message] s
  | failed {statements : List Tree} {k : Nat} {values : List Float} {e : EvalError} :
      IsProgram line → (parseSource (stripped line)).1 = .ok statements →
        Tree.FailsAt s.workspace.environment statements k values e →
          Answers s line
            (echoed (statements.take k) values ++ ["[error] >>> " ++ e.diagnostic.message])
            (s.performed (statements.take k) values)
  | succeeded {statements : List Tree} {values : List Float} :
      IsProgram line → (parseSource (stripped line)).1 = .ok statements →
        Tree.Succeed s.workspace.environment statements values →
          Answers s line (echoed statements values) (s.performed statements values)

/-- How a session answers lines one after the other. -/
inductive Proceeds : Session → List String → List (List String) → Session → Prop
  | nil (s : Session) : Proceeds s [] [] s
  | cons {s s' s'' : Session} {line : String} {answer : List String} {lines : List String}
      {answers : List (List String)} :
      Answers s line answer s' → Proceeds s' lines answers s'' →
        Proceeds s (line :: lines) (answer :: answers) s''

/-! ## What a line asks for -/

section Lines

variable {line : String}

theorem ofLine_of_idle (h : IsIdle line) : Typed.ofLine line = .skip := by
  simp only [Typed.ofLine]
  rw [if_pos ((isSkipped_iff _).mpr h)]

theorem ofLine_congr {other : String} (h : stripped line = stripped other) :
    Typed.ofLine line = Typed.ofLine other := by
  unfold stripped at h
  simp only [Typed.ofLine, h]

theorem ofLine_of_leaves (h : Leaves line) : Typed.ofLine line = .leave := by
  rcases h with h | h
  · have hexit : stripped line = stripped "exit" := h.trans (by decide +kernel)
    exact (ofLine_congr hexit).trans (by decide +kernel)
  · have hquit : stripped line = stripped "quit" := h.trans (by decide +kernel)
    exact (ofLine_congr hquit).trans (by decide +kernel)

theorem ofLine_of_variables (h : stripped line = "vars") : Typed.ofLine line = .variables := by
  have hvars : stripped line = stripped "vars" := h.trans (by decide +kernel)
  exact (ofLine_congr hvars).trans (by decide +kernel)

theorem not_idle_of_toggle (h : (stripped line).map Char.toLower = "verbose-mode") :
    ¬ IsIdle line := by
  have hletters : (Text.trim line.toList).map Char.toLower = "verbose-mode".toList := by
    rw [← h, String.toList_map, stripped, String.toList_ofList]
  rintro (hnil | ⟨body, hbody⟩)
  · rw [hnil] at hletters
    exact absurd hletters (by decide)
  · rw [hbody] at hletters
    have hhead : some '#'.toLower = "verbose-mode".toList.head? := congrArg List.head? hletters
    exact absurd hhead (by decide)

theorem ofLine_of_toggle (h : (stripped line).map Char.toLower = "verbose-mode") :
    Typed.ofLine line = .toggle := by
  have hother (word : String) (hword : word.map Char.toLower ≠ "verbose-mode") :
      stripped line ≠ word := fun hline => hword (hline ▸ h)
  have hexit := hother "exit" (by decide +kernel)
  have hquit := hother "quit" (by decide +kernel)
  have hvars := hother "vars" (by decide +kernel)
  have hidle := not_idle_of_toggle h
  rw [IsIdle, ← isSkipped_iff] at hidle
  unfold stripped at h hexit hquit hvars
  simp only [Typed.ofLine, beq_iff_eq, Bool.or_eq_true] at hidle ⊢
  rw [if_neg hidle]
  simp only [hexit, hquit, hvars, h, or_self, if_false, if_true]

theorem ofLine_of_program (h : IsProgram line) : Typed.ofLine line = .run (stripped line) := by
  rcases Typed.ofLine_cases h.2 with ⟨-, hidle⟩ | hrun
  · exact absurd hidle h.1
  · exact hrun

end Lines

/-! ## Answers -/

section Answers

variable {s s' : Session} {line source : String} {statements ts : List Tree} {values : List Float}
  {answer : List String}

theorem applyAll_effects {error? : Option EvalError}
    (h : interpret s.workspace.environment statements =
      ⟨Tree.effects ts values, error?, s.workspace.environment.extend (Tree.bindings ts values)⟩) :
    s.workspace.applyAll (Tree.effects ts values) = (s.performed ts values).workspace := by
  have hall := Workspace.applyAll_interpret s.workspace statements
  rw [h, Outcome.printed, Tree.filterMap_printed?_effects] at hall
  exact hall

/-- What a session writes on the standard output for a program: the values that are shown, and a
line for the error if there is one. -/
theorem standardText_runProgram (s : Session) (source : String) :
    let run := runSource none s.workspace.environment source
    Output.standardText (s.runProgram source).outputs =
      String.join (((run.effects.filterMap Effect.shown?).map Number.plainText ++
        (run.error?.map fun e => "[error] >>> " ++ e.message).toList).map (· ++ "\n")) := by
  intro run
  have hshown : (run.effects.filterMap Effect.shown?).map
      (fun value => Output.line (Number.plainText value)) =
        ((run.effects.filterMap Effect.shown?).map Number.plainText).map Output.line := by
    rw [List.map_map]
    rfl
  simp only [runProgram, Output.standardText_append, Output.standardText_records,
    String.empty_append, List.map_append, String.join_append]
  rw [hshown, Output.standardText_lines]
  congr 1
  cases run.error? with
  | none => rfl
  | some error =>
      rw [Output.standardText_append, Output.standardText_records, String.empty_append]
      exact Output.standardText_lines ["[error] >>> " ++ error.message]

theorem runProgram_of_interpret {error? : Option EvalError}
    (hparse : (parseSource source).1 = .ok statements) (hts : ∀ t ∈ ts, t.IsStatement)
    (h : interpret s.workspace.environment statements =
      ⟨Tree.effects ts values, error?, s.workspace.environment.extend (Tree.bindings ts values)⟩) :
    (s.runProgram source).session = s.performed ts values ∧
    Output.standardText (s.runProgram source).outputs =
      String.join ((echoed ts values ++
        (error?.map fun e => "[error] >>> " ++ e.diagnostic.message).toList).map (· ++ "\n")) := by
  obtain ⟨herror, -, heffects⟩ := runSource_of_ok hparse none s.workspace.environment
  simp only [h] at herror heffects
  constructor
  · have hworkspace := applyAll_effects h
    rw [← heffects] at hworkspace
    exact congrArg (fun w => { s with workspace := w }) hworkspace
  · rw [standardText_runProgram, heffects, herror, Tree.filterMap_shown?_effects hts,
      Option.map_map]
    rfl

theorem runProgram_of_error {f : ParseFailure} {d : Diagnostic}
    (hparse : (parseSource source).1 = .error f) (hd : f.diagnostic? = some d) :
    (s.runProgram source).session = s ∧
    Output.standardText (s.runProgram source).outputs =
      String.join (["[error] >>> " ++ d.message].map (· ++ "\n")) := by
  match hsource : parseSource source with
  | (.ok statements, trail) => simp [hsource] at hparse
  | (.error f', trail) =>
      obtain rfl : f' = f := by simpa [hsource] using hparse
      have hrun (counter : Option Part) (env : Environment) :
          runSource counter env source = ⟨[], some (.parse f'), env, trail.toList⟩ := by
        simp [runSource, hsource]
      constructor
      · simp [runProgram, hrun, Workspace.applyAll]
      · rw [standardText_runProgram, hrun, ← ParseFailure.message_eq hd]
        rfl

/-- An answer is what the session writes, and the session goes on as it says. -/
theorem Answers.respond_eq (h : Answers s line answer s') :
    (s.respond line).session = s' ∧ (s.respond line).leaving = false ∧
      Output.standardText (s.respond line).outputs = String.join (answer.map (· ++ "\n")) := by
  cases h with
  | idle hidle =>
      rw [respond, ofLine_of_idle hidle]
      exact ⟨rfl, rfl, rfl⟩
  | listed hvars =>
      rw [respond, ofLine_of_variables hvars]
      exact ⟨rfl, rfl, Output.standardText_lines _⟩
  | toggled htoggle =>
      rw [respond, ofLine_of_toggle htoggle]
      refine ⟨rfl, rfl, ?_⟩
      cases s.verbose <;> rfl
  | refused hprogram hparse hd =>
      rw [respond, ofLine_of_program hprogram]
      obtain ⟨hsession, houtputs⟩ := runProgram_of_error hparse hd (s := s)
      exact ⟨hsession, rfl, houtputs⟩
  | @failed statements k values e hprogram hparse hfails =>
      have hall := isStatement_of_parseSource hparse
      have hrun := Tree.interpret_of_failsAt (fun t ht => (hall t ht).exists_body) hfails
      have hts : ∀ t ∈ statements.take k, t.IsStatement := fun t ht =>
        hall t (List.mem_of_mem_take ht)
      rw [respond, ofLine_of_program hprogram]
      obtain ⟨hsession, houtputs⟩ := runProgram_of_interpret hparse hts hrun
      exact ⟨hsession, rfl, houtputs⟩
  | @succeeded statements values hprogram hparse hsucceed =>
      have hall := isStatement_of_parseSource hparse
      have hrun := Tree.interpret_of_succeed (fun t ht => (hall t ht).exists_body) hsucceed
      rw [respond, ofLine_of_program hprogram]
      obtain ⟨hsession, houtputs⟩ := runProgram_of_interpret hparse hall hrun
      rw [Option.map_none, Option.toList_none, List.append_nil] at houtputs
      exact ⟨hsession, rfl, houtputs⟩

theorem exists_answers (s : Session) (h : ¬ Leaves line) :
    ∃ answer s', Answers s line answer s' := by
  by_cases hidle : IsIdle line
  · exact ⟨_, _, .idle hidle⟩
  by_cases hvars : stripped line = "vars"
  · exact ⟨_, _, .listed hvars⟩
  by_cases htoggle : (stripped line).map Char.toLower = "verbose-mode"
  · exact ⟨_, _, .toggled htoggle⟩
  -- All other lines are programs, which fail to parse, fail at a statement, or succeed.
  have hprogram : IsProgram line := by
    rw [Leaves, not_or] at h
    refine ⟨hidle, ?_⟩
    rintro (hword | hword)
    · simp only [List.mem_cons, List.not_mem_nil, or_false] at hword
      rcases hword with hexit | hquit | hword
      · exact h.1 hexit
      · exact h.2 hquit
      · exact hvars hword
    · exact htoggle hword
  cases hparse : (parseSource (stripped line)).1 with
  | error f =>
      obtain ⟨d, hd⟩ := exists_diagnostic_of_parseSource hparse
      exact ⟨_, _, .refused hprogram hparse hd⟩
  | ok statements =>
      have hall := isStatement_of_parseSource hparse
      rcases Tree.interpret_cases s.workspace.environment statements fun t ht =>
        (hall t ht).exists_body with ⟨values, hsucceed, -⟩ | ⟨k, values, e, hfails, -⟩
      · exact ⟨_, _, .succeeded hprogram hparse hsucceed⟩
      · exact ⟨_, _, .failed hprogram hparse hfails⟩

end Answers

/-! ## Whole sessions -/

section Sessions

variable {s s' : Session} {line : String} {lines answer : List String}
  {answers : List (List String)}

theorem Answers.transcript_eq (h : Answers s line answer s') (more : List String) :
    s.transcript (line :: more) =
      .text prompt :: (s.respond line).outputs ++ s'.transcript more := by
  obtain ⟨rfl, hleaving, -⟩ := h.respond_eq
  rw [transcript, hleaving]
  rfl

theorem transcript_of_leaves (h : Leaves line) (s : Session) (more : List String) :
    s.transcript (line :: more) = [.text prompt, .line farewell] := by
  rw [transcript, respond, ofLine_of_leaves h]
  rfl

theorem exists_proceeds (s : Session) (h : ∀ line ∈ lines, ¬ Leaves line) :
    ∃ answers s', Proceeds s lines answers s' := by
  induction lines generalizing s with
  | nil => exact ⟨[], s, .nil s⟩
  | cons line lines ih =>
      rw [List.forall_mem_cons] at h
      obtain ⟨answer, middle, hanswer⟩ := exists_answers s h.1
      obtain ⟨answers, s', hproceeds⟩ := ih middle h.2
      exact ⟨answer :: answers, s', .cons hanswer hproceeds⟩

theorem Proceeds.after_eq (h : Proceeds s lines answers s') : s.after lines = s' := by
  induction h with
  | nil s => rfl
  | cons hanswer _ ih => rw [after_cons, hanswer.respond_eq.1, ih]

/-- Lines are answered one after the other, and what comes next depends only on the session that
they leave. -/
theorem Proceeds.transcript_append (h : Proceeds s lines answers s') (more : List String) :
    s.transcript (lines ++ more) = s.written lines ++ s'.transcript more := by
  induction h with
  | nil s => rfl
  | cons hanswer _ ih =>
      rw [List.cons_append, hanswer.transcript_eq, ih, written, hanswer.respond_eq.1,
        List.append_assoc]

theorem Proceeds.standardText_written (h : Proceeds s lines answers s') :
    Output.standardText (s.written lines) = String.join (answers.map answerText) := by
  induction h with
  | nil s => rfl
  | cons hanswer _ ih =>
      obtain ⟨hsession, -, houtputs⟩ := hanswer.respond_eq
      rw [written, Output.standardText_append, Output.standardText_text, houtputs, hsession, ih,
        List.map_cons, String.join_cons, answerText]

theorem exists_first_leaving (lines : List String) :
    ∃ answered rest, lines = answered ++ rest ∧ (∀ line ∈ answered, ¬ Leaves line) ∧
      ∀ line more, rest = line :: more → Leaves line := by
  induction lines with
  | nil => exact ⟨[], [], rfl, by simp, by simp⟩
  | cons line lines ih =>
      by_cases hline : Leaves line
      · refine ⟨[], line :: lines, rfl, by simp, ?_⟩
        rintro line' more ⟨⟩
        exact hline
      · obtain ⟨answered, rest, rfl, hanswered, hrest⟩ := ih
        exact ⟨line :: answered, rest, rfl, List.forall_mem_cons.mpr ⟨hline, hanswered⟩, hrest⟩

theorem standardText_end (s : Session) {rest : List String}
    (h : ∀ line more, rest = line :: more → Leaves line) :
    Output.standardText (s.transcript rest) =
      prompt ++ (if rest = [] then "\n" else "") ++ farewell ++ "\n" := by
  cases rest with
  | nil => rfl
  | cons line more =>
      rw [transcript_of_leaves (h line more rfl)]
      rfl

end Sessions

end Session

open Session in
/-- A session goes on whatever is typed. Each line that does not end it has an answer, by which the
state of the session and the lines that it writes are determined; what is typed later finds the
session in this state. The words that end a session do nothing else. So a session answers all lines
up to such a word or to the end of the input, each in the state that the lines before it have left,
and then takes its leave. A line that does not parse can be left out, and nothing changes for the
others. -/
theorem session_isolation :
    (∀ (s : Session) (line : String), ¬ Leaves line →
      ∃ answer, Answers s line answer (s.respond line).session) ∧
    (∀ (s s' : Session) (line : String) (answer : List String), Answers s line answer s' →
      (s.respond line).session = s' ∧
      Output.standardText (s.respond line).outputs = String.join (answer.map (· ++ "\n")) ∧
      ∀ more, s.transcript (line :: more) =
        .text prompt :: (s.respond line).outputs ++ s'.transcript more) ∧
    (∀ (s : Session) (line : String) (more : List String), Leaves line →
      s.transcript (line :: more) = [.text prompt, .line farewell]) ∧
    (∀ (verbose recording : Bool) (lines : List String),
      ∃ answered rest answers final,
        lines = answered ++ rest ∧ (∀ line ∈ answered, ¬ Leaves line) ∧
        (∀ line more, rest = line :: more → Leaves line) ∧
        Proceeds (start verbose recording) answered answers final ∧
        (start verbose recording).after answered = final ∧
        Output.standardText (.line greeting :: (start verbose recording).transcript lines) =
          greeting ++ "\n" ++ String.join (answers.map answerText) ++
            (prompt ++ (if rest = [] then "\n" else "") ++ farewell ++ "\n") ∧
        ∀ input, inputLines input = lines →
          play verbose recording input =
            .line greeting :: (start verbose recording).transcript lines) ∧
    ∀ (s : Session) (before after : List String) (line : String) (f : ParseFailure),
      IsProgram line → (parseSource (stripped line)).1 = .error f →
        s.after (before ++ line :: after) = s.after (before ++ after) := by
  refine ⟨fun s line hline => ?_, fun s s' line answer h => ?_, fun s line more h => ?_,
    fun verbose recording lines => ?_, fun s before after line f hprogram hparse => ?_⟩
  · obtain ⟨answer, s', hanswer⟩ := exists_answers s hline
    rw [hanswer.respond_eq.1]
    exact ⟨answer, hanswer⟩
  · exact ⟨h.respond_eq.1, h.respond_eq.2.2, h.transcript_eq⟩
  · exact transcript_of_leaves h s more
  · obtain ⟨answered, rest, rfl, hanswered, hrest⟩ := exists_first_leaving lines
    obtain ⟨answers, final, hproceeds⟩ := exists_proceeds (start verbose recording) hanswered
    refine ⟨answered, rest, answers, final, rfl, hanswered, hrest, hproceeds, hproceeds.after_eq,
      ?_, fun input hinput => ?_⟩
    · rw [hproceeds.transcript_append, Output.line, Output.standardText_text,
        Output.standardText_append, hproceeds.standardText_written, standardText_end final hrest]
      exact String.append_assoc.symm
    · rw [play, hinput]
  · obtain ⟨d, hd⟩ := exists_diagnostic_of_parseSource hparse
    have hsame := (Answers.refused hprogram hparse hd (s := s.after before)).respond_eq.1
    simp only [Session.after, List.foldl_append, List.foldl_cons] at hsame ⊢
    rw [hsame]

end Reckoner
