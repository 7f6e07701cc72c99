import Reckoner.Proofs.Eval.Joining
import Reckoner.Proofs.Scan.Trimming
import Reckoner.Proofs.Text.Newlines
import Reckoner.Session.Basic

/-!
# A session does what its lines do as one program

If lines joined by newlines run without an error, then a session in which they are typed one by one
ends with the same variables and the same printed values, and shows the value of every statement
that is not an assignment. The lines are divided one from the next where the program has the newline
between them. Trimming a line or skipping a comment loses no statement.
-/

namespace Reckoner

open Grammar

/-! ## Lines of an input -/

namespace Text

theorem lines_append {line : List Char} (h : '\n' ∉ line) (rest : List Char) :
    lines (line ++ '\n' :: rest) = line :: lines rest := by
  induction line with
  | nil => rw [List.nil_append, lines]
  | cons c line ih =>
      rw [List.mem_cons, not_or] at h
      rw [List.cons_append, lines, ih h.2]
      rintro rfl
      exact h.1 rfl

theorem lines_flatMap {lines : List (List Char)} (h : ∀ line ∈ lines, '\n' ∉ line) :
    Text.lines (lines.flatMap (· ++ ['\n'])) = lines := by
  induction lines with
  | nil => rfl
  | cons line lines ih =>
      rw [List.forall_mem_cons] at h
      rw [List.flatMap_cons, List.append_assoc, List.singleton_append, lines_append h.1, ih h.2]

end Text

theorem Session.inputLines_join {lines : List String}
    (h : ∀ line ∈ lines, '\n' ∉ line.toList ∧ '\r' ∉ line.toList) :
    inputLines (String.join (lines.map (· ++ "\n"))) = lines := by
  have htext : (String.join (lines.map (· ++ "\n"))).toList =
      (lines.map String.toList).flatMap (· ++ ['\n']) := by
    simp [String.toList_join, List.flatMap_map, String.toList_append]
  have hreturn : '\r' ∉ (lines.map String.toList).flatMap (· ++ ['\n']) := by
    simp only [List.flatMap_map, List.mem_flatMap, List.mem_append, List.mem_singleton, not_exists,
      not_and, not_or]
    exact fun line hline => ⟨(h line hline).2, by decide⟩
  have hnewline : ∀ line ∈ lines.map String.toList, '\n' ∉ line := by
    rw [List.forall_mem_map]
    exact fun line hline => (h line hline).1
  rw [inputLines, htext, Text.normalizeNewlines_of_not_mem hreturn, Text.lines_flatMap hnewline,
    List.map_map]
  simp [Function.comp_def]

/-! ## The first of several lines -/

section FirstLine

variable {line : String} {lines : List String} {ws : List Tree}

theorem parseSource_empty : (parseSource "").1 = .ok [] := by
  obtain ⟨htokens, herror⟩ := tokenize_empty
  refine (parseSource_eq_ok_iff ?_).mpr ⟨herror, by simp, htokens ▸ .nil⟩
  rw [htokens]
  exact Nat.zero_le _

theorem nesting_intercalate
    (hnesting : ∀ line ∈ lines, nesting (tokenize line).tokens ≤ Parse.nestingLimit)
    (h : (tokenize ("\n".intercalate lines)).error? = none) :
    nesting (tokenize ("\n".intercalate lines)).tokens ≤ Parse.nestingLimit := by
  induction lines with
  | nil =>
      rw [String.intercalate_nil, tokenize_empty.1]
      exact Nat.zero_le _
  | cons line lines ih =>
      rw [List.forall_mem_cons] at hnesting
      cases lines with
      | nil =>
          rw [String.intercalate_singleton]
          exact hnesting.1
      | cons next lines =>
          rw [String.intercalate_cons_cons] at h ⊢
          have herror := error?_of_joined h
          rw [(tokenize_joined herror).2, Option.map_eq_none_iff] at h
          exact nesting_joined hnesting.1 (ih hnesting.2 h) herror

/-- If joined lines parse, then so do the first line and the others. -/
theorem exists_first_line
    (hnesting : ∀ l ∈ line :: lines, nesting (tokenize l).tokens ≤ Parse.nestingLimit)
    (h : (parseSource ("\n".intercalate (line :: lines))).1 = .ok ws) :
    ∃ us vs f, (parseSource line).1 = .ok us ∧
      (parseSource ("\n".intercalate lines)).1 = .ok vs ∧ ws = us ++ vs.map (Tree.relocate f) := by
  cases lines with
  | nil =>
      rw [String.intercalate_singleton] at h
      exact ⟨ws, [], id, h, parseSource_empty, by simp⟩
  | cons next lines =>
      rw [List.forall_mem_cons] at hnesting
      rw [String.intercalate_cons_cons] at h
      obtain ⟨herror, -⟩ := layout_of_parseSource h
      rw [(tokenize_joined (error?_of_joined herror)).2, Option.map_eq_none_iff] at herror
      have hrest := nesting_intercalate hnesting.2 herror
      obtain ⟨us, vs, hus, hvs⟩ := exists_of_parseSource_joined hnesting.1 hrest h
      rw [parseSource_joined hnesting.1 hrest hus hvs] at h
      exact ⟨us, vs, _, hus, hvs, (Except.ok.inj h).symm⟩

end FirstLine

/-! ## Workspaces -/

/-- Statements leave a workspace with their bindings and with what they print. -/
theorem Workspace.applyAll_interpret (w : Workspace) (ts : List Tree) :
    w.applyAll (interpret w.environment ts).effects =
      ⟨(interpret w.environment ts).environment,
        w.printed ++ (interpret w.environment ts).printed⟩ := by
  induction ts generalizing w with
  | nil => simp [interpret, applyAll, Outcome.printed]
  | cons t ts ih =>
      rw [interpret]
      cases execute w.environment t with
      | error e => simp [applyAll, Outcome.printed]
      | ok effect =>
          have hrest := ih (w.apply effect)
          have hstep (effects : List Effect) :
              w.applyAll (effect :: effects) = (w.apply effect).applyAll effects := rfl
          simp only [hstep]
          rw [show effect.apply w.environment = (w.apply effect).environment from rfl, hrest]
          cases h : effect.printed? <;> simp [apply, Outcome.printed, h]

/-! ## Answers to lines -/

/-- The texts of the values that a session shows. -/
def Outcome.shown (outcome : Outcome) : List String :=
  (outcome.effects.filterMap Effect.shown?).map Number.plainText

namespace Output

theorem standardText_append (xs ys : List Output) :
    standardText (xs ++ ys) = standardText xs ++ standardText ys := by
  rw [standardText, List.map_append, String.join_append]
  rfl

theorem standardText_text (content : String) (xs : List Output) :
    standardText (.text content :: xs) = content ++ standardText xs := by
  rw [standardText, List.map_cons, String.join_cons]
  rfl

theorem standardText_records (recording : Bool) (events : List Event) :
    standardText (records recording events) = "" := by
  cases recording with
  | false => rfl
  | true =>
      induction events with
      | nil => rfl
      | cons event events ih =>
          rw [standardText, records, if_pos rfl, List.map_cons, List.map_cons, String.join_cons]
          exact ih

theorem standardText_lines (texts : List String) :
    standardText (texts.map line) = String.join (texts.map (· ++ "\n")) := by
  rw [standardText, List.map_map]
  rfl

end Output

namespace Session

variable {session : Session} {line : String} {us : List Tree}

/-- Whether a line is a command to the session itself. -/
def IsCommand (line : String) : Prop :=
  let typed := String.ofList (Text.trim line.toList)
  typed ∈ ["exit", "quit", "vars"] ∨ typed.map Char.toLower = "verbose-mode"

instance : DecidablePred IsCommand := fun _ => inferInstanceAs (Decidable (_ ∨ _))

theorem isSkipped_iff (cs : List Char) :
    ((String.ofList cs).isEmpty || (String.ofList cs).front == '#') = true ↔
      cs = [] ∨ ∃ body, cs = '#' :: body := by
  cases cs with
  | nil => simp
  | cons c body =>
      have hfront : (String.ofList (c :: body)).front = c := by
        rw [String.front_eq, String.front?_eq, String.toList_ofList]
        rfl
      have hempty : (String.ofList (c :: body)).isEmpty = false := by simp
      rw [hfront, hempty]
      simp

theorem Typed.ofLine_cases (h : ¬ IsCommand line) :
    (ofLine line = .skip ∧
      (Text.trim line.toList = [] ∨ ∃ body, Text.trim line.toList = '#' :: body)) ∨
    ofLine line = .run (String.ofList (Text.trim line.toList)) := by
  simp only [IsCommand, List.mem_cons, List.not_mem_nil, or_false, not_or] at h
  obtain ⟨⟨hexit, hquit, hvars⟩, hmode⟩ := h
  by_cases hskip : ((String.ofList (Text.trim line.toList)).isEmpty ||
      (String.ofList (Text.trim line.toList)).front == '#') = true
  · refine Or.inl ⟨?_, (isSkipped_iff _).mp hskip⟩
    simp only [ofLine]
    rw [if_pos hskip]
  · right
    simp only [ofLine]
    rw [if_neg hskip]
    simp only [beq_iff_eq, Bool.or_eq_true, hexit, hquit, hvars, hmode, or_self, if_false]

theorem leaving_respond (h : ¬ IsCommand line) : (session.respond line).leaving = false := by
  rcases Typed.ofLine_cases h with ⟨hskip, -⟩ | hrun
  · rw [respond, hskip]
  · rw [respond, hrun]
    rfl

/-- The statements of a line that is skipped: there are none. -/
theorem statements_of_skipped (hline : '\n' ∉ line.toList)
    (hskip : Text.trim line.toList = [] ∨ ∃ body, Text.trim line.toList = '#' :: body)
    (hus : (parseSource line).1 = .ok us) : us = [] := by
  obtain ⟨herror, hall, hlayout⟩ := layout_of_parseSource hus
  obtain ⟨-, f, htokens⟩ := tokenize_trim hline herror
  have hnone : (tokenize (String.ofList (Text.trim line.toList))).tokens = [] := by
    rcases hskip with hnil | ⟨body, hbody⟩
    · rw [hnil]
      exact tokenize_empty.1
    · rw [hbody]
      apply tokens_of_comment
      intro hmem
      exact hline (Text.mem_of_mem_trim (hbody ▸ List.mem_cons_of_mem '#' hmem))
  rw [hnone] at htokens
  rw [List.map_eq_nil_iff.mp htokens.symm] at hlayout
  exact Tree.layout_unique hlayout .nil hall (by simp)

/-- A line within a session does what its statements do, and shows the values of those that are no
assignments. -/
theorem respond_of_line (hline : '\n' ∉ line.toList) (hcommand : ¬ IsCommand line)
    (hnesting : nesting (tokenize line).tokens ≤ Parse.nestingLimit)
    (hus : (parseSource line).1 = .ok us)
    (hok : (interpret session.workspace.environment us).error? = none) :
    (session.respond line).session.workspace =
      ⟨(interpret session.workspace.environment us).environment,
        session.workspace.printed ++ (interpret session.workspace.environment us).printed⟩ ∧
    Output.standardText (session.respond line).outputs =
      String.join ((interpret session.workspace.environment us).shown.map (· ++ "\n")) := by
  rw [← Workspace.applyAll_interpret]
  rcases Typed.ofLine_cases hcommand with ⟨htyped, hskip⟩ | htyped
  · rw [respond, htyped, statements_of_skipped hline hskip hus]
    exact ⟨rfl, rfl⟩
  · obtain ⟨herror, -⟩ := layout_of_parseSource hus
    obtain ⟨herror', f, htokens⟩ := tokenize_trim hline herror
    have hparse := parseSource_relocate hnesting hus herror' htokens
    obtain ⟨hnone, -, heffects⟩ :=
      runSource_of_ok hparse none session.workspace.environment
    rw [Tree.interpret_relocate, hok] at hnone
    rw [Tree.interpret_relocate] at heffects
    have hshown (values : List Float) :
        values.map (fun value => Output.line (Number.plainText value)) =
          (values.map Number.plainText).map Output.line := by
      rw [List.map_map]
      rfl
    rw [respond, htyped]
    simp only [runProgram, hnone, heffects, Option.map_none, List.append_nil, hshown,
      Output.standardText_append, Output.standardText_records, Output.standardText_lines,
      String.empty_append, Outcome.shown, and_self]

/-! ## Sessions -/

/-- The session after it has answered lines, none of which ends it. -/
def after (session : Session) (lines : List String) : Session :=
  lines.foldl (fun session line => (session.respond line).session) session

theorem after_cons (session : Session) (line : String) (lines : List String) :
    session.after (line :: lines) = (session.respond line).session.after lines :=
  List.foldl_cons

/-- What is written while lines are typed, none of which ends the session. -/
def written (session : Session) : List String → List Output
  | [] => []
  | line :: lines =>
    .text prompt :: (session.respond line).outputs ++ (session.respond line).session.written lines

/-- Further lines are answered by the session after the lines before them. -/
theorem transcript_append {lines : List String} (h : ∀ line ∈ lines, ¬ IsCommand line)
    (more : List String) :
    session.transcript (lines ++ more) =
      session.written lines ++ (session.after lines).transcript more := by
  induction lines generalizing session with
  | nil => rfl
  | cons line lines ih =>
      rw [List.forall_mem_cons] at h
      rw [List.cons_append, transcript, leaving_respond h.1, written, after_cons]
      simp only [Bool.false_eq_true, if_false, ih h.2, List.cons_append, List.append_assoc]

/-- The text of an answer, after the prompt. -/
def answerText (answer : List String) : String :=
  prompt ++ String.join (answer.map (· ++ "\n"))

/-- What a session does with lines is what one program does that consists of them. -/
theorem session_of_lines {lines : List String}
    (hlines : ∀ line ∈ lines, '\n' ∉ line.toList ∧ ¬ IsCommand line)
    (hnesting : ∀ line ∈ lines, nesting (tokenize line).tokens ≤ Parse.nestingLimit)
    {ws : List Tree} (hws : (parseSource ("\n".intercalate lines)).1 = .ok ws)
    (hok : (interpret session.workspace.environment ws).error? = none) :
    (session.after lines).workspace =
      ⟨(interpret session.workspace.environment ws).environment,
        session.workspace.printed ++ (interpret session.workspace.environment ws).printed⟩ ∧
    ∃ answers : List (List String), answers.length = lines.length ∧
      answers.flatten = (interpret session.workspace.environment ws).shown ∧
      Output.standardText (session.written lines) = String.join (answers.map answerText) := by
  -- The session has parsed the first line alone, where its statements stand as in the program. Those
  -- of the other lines are moved, which does not change what they do.
  induction lines generalizing session ws with
  | nil =>
      rw [String.intercalate_nil, parseSource_empty] at hws
      cases hws
      exact ⟨by simp [after, interpret, Outcome.printed], [], rfl, rfl, rfl⟩
  | cons line lines ih =>
      obtain ⟨us, vs, f, hus, hvs, rfl⟩ := exists_first_line hnesting hws
      rw [List.forall_mem_cons] at hlines hnesting
      obtain ⟨hfirst, hrest, hsplit⟩ := Tree.interpret_joined f _ hok
      obtain ⟨hworkspace, houtputs⟩ :=
        respond_of_line hlines.1.1 hlines.1.2 hnesting.1 hus hfirst
      have henv : (session.respond line).session.workspace.environment =
          (interpret session.workspace.environment us).environment := by rw [hworkspace]
      rw [← henv] at hrest
      obtain ⟨hworkspace', answers, hlength, hanswers, hwritten⟩ :=
        ih hlines.2 hnesting.2 hvs hrest
      rw [henv, hworkspace] at hworkspace'
      rw [henv] at hanswers
      rw [hsplit]
      refine ⟨?_, (interpret session.workspace.environment us).shown :: answers,
        congrArg (· + 1) hlength, ?_, ?_⟩
      · rw [after_cons, hworkspace']
        simp [Outcome.printed]
      · rw [List.flatten_cons, hanswers]
        simp [Outcome.shown]
      · rw [written, Output.standardText_append, Output.standardText_text, houtputs, hwritten,
          List.map_cons, String.join_cons, answerText]

end Session

/-! ## Values that are shown -/

namespace Tree

/-- The value that a session shows of a statement whose expression has the value. -/
def shown? (t : Tree) (value : Float) : Option Float :=
  match t with
  | .bare _ _ => some value
  | .print _ _ => some value
  | _ => none

/-- The values that a session shows of statements whose expressions have the values. -/
def shown (statements : List Tree) (values : List Float) : List Float :=
  (statements.zip values).filterMap fun p => p.1.shown? p.2

theorem shown?_effect {t : Tree} (h : t.IsStatement) (value : Float) :
    (t.effect value).shown? = t.shown? value := by
  cases t with
  | bare pos body => rfl
  | assign pos id body => rfl
  | print pos body => rfl
  | _ => cases h

theorem filterMap_shown?_effects {ts : List Tree} (h : ∀ t ∈ ts, t.IsStatement)
    (values : List Float) : (effects ts values).filterMap Effect.shown? = shown ts values := by
  rw [effects, List.filterMap_map, shown]
  refine List.filterMap_congr fun p hp => ?_
  exact shown?_effect (h p.1 (List.of_mem_zip hp).1) p.2

end Tree

/-- A program that runs without an error consists of statements that all succeed. -/
theorem exists_succeed_of_run {env : Environment} {source : String}
    (h : (run env source).error? = none) :
    ∃ statements values, (parseSource source).1 = .ok statements ∧
      (∀ t ∈ statements, t.IsStatement) ∧ Tree.Succeed env statements values ∧
      interpret env statements =
        ⟨Tree.effects statements values, none, env.extend (Tree.bindings statements values)⟩ := by
  cases hparse : (parseSource source).1 with
  | error f =>
      rw [(run_of_error hparse env).1] at h
      cases h
  | ok statements =>
      have hall := isStatement_of_parseSource hparse
      rw [(run_of_ok hparse env).1, Option.map_eq_none_iff] at h
      rcases Tree.interpret_cases env statements fun t ht => (hall t ht).exists_body with
        ⟨values, hsucceed, hinterpret⟩ | ⟨k, values, e, -, hinterpret⟩
      · exact ⟨statements, values, rfl, hall, hsucceed, hinterpret⟩
      · rw [hinterpret] at h
        cases h

/-- Lines that run without an error as one program do the same in a session. The session ends with
the variables and the printed values of the program, and further lines would go on from there. On
the standard output it answers each line with the values of its statements other than assignments,
one on a line, and these are the values that the program has in this order. -/
theorem session_eq_batch (verbose recording : Bool) (lines : List String)
    (hlines : ∀ line ∈ lines, '\n' ∉ line.toList ∧ '\r' ∉ line.toList)
    (hcommands : ∀ line ∈ lines, ¬ Session.IsCommand line)
    (hnesting : ∀ line ∈ lines, nesting (tokenize line).tokens ≤ Parse.nestingLimit)
    (hrun : (run .empty ("\n".intercalate lines)).error? = none) :
    let batch := run .empty ("\n".intercalate lines)
    let session := Session.start verbose recording
    let input := String.join (lines.map (· ++ "\n"))
    (session.after lines).workspace = ⟨batch.environment, batch.printed⟩ ∧
    (∀ more, session.transcript (lines ++ more) =
      session.written lines ++ (session.after lines).transcript more) ∧
    ∃ (statements : List Tree) (values : List Float) (answers : List (List String)),
      (parseSource ("\n".intercalate lines)).1 = .ok statements ∧
      Tree.Succeed .empty statements values ∧
      answers.length = lines.length ∧
      answers.flatten = (Tree.shown statements values).map Number.plainText ∧
      Output.standardText (Session.play verbose recording input) =
        Session.greeting ++ "\n" ++ String.join (answers.map Session.answerText) ++
          (Session.prompt ++ "\n" ++ Session.farewell ++ "\n") := by
  intro batch session input
  obtain ⟨statements, values, hparse, hall, hsucceed, hinterpret⟩ := exists_succeed_of_run hrun
  obtain ⟨-, henv, heffects⟩ := run_of_ok hparse .empty
  have hok : (interpret session.workspace.environment statements).error? = none :=
    congrArg Outcome.error? hinterpret
  obtain ⟨hworkspace, answers, hlength, hanswers, hwritten⟩ :=
    Session.session_of_lines (fun line hline => ⟨(hlines line hline).1, hcommands line hline⟩)
      hnesting hparse hok
  have happend (more : List String) : session.transcript (lines ++ more) =
      session.written lines ++ (session.after lines).transcript more :=
    Session.transcript_append hcommands more
  refine ⟨?_, happend, statements, values, answers, hparse, hsucceed, hlength, ?_, ?_⟩
  · rw [hworkspace, Run.printed, henv, heffects]
    rfl
  · rw [hanswers, Outcome.shown, ← Tree.filterMap_shown?_effects hall]
    exact congrArg (fun outcome : Outcome => (outcome.effects.filterMap _).map _) hinterpret
  · have htranscript := happend []
    rw [List.append_nil] at htranscript
    rw [Session.play, Session.inputLines_join hlines, htranscript, Output.line,
      Output.standardText_text, Output.standardText_append, hwritten, String.append_assoc]
    rfl

/-- Lines with blanks and comments, one of which ends in white space that is no blank for the
scanner. -/
theorem session_eq_batch_comments :
    let lines := ["x = 2", "# two", " print x #\u00a0", "x"]
    let batch := run .empty ("\n".intercalate lines)
    batch.error? = none ∧
      ((Session.start false false).after lines).workspace = ⟨batch.environment, batch.printed⟩ := by
  intro lines batch
  have hlines : ∀ line ∈ lines, '\n' ∉ line.toList ∧ '\r' ∉ line.toList := by simp [lines]
  have hcommands : ∀ line ∈ lines, ¬ Session.IsCommand line := by decide +kernel
  have hnesting : ∀ line ∈ lines, nesting (tokenize line).tokens ≤ Parse.nestingLimit := by
    decide +kernel
  have hrun : batch.error? = none := by decide +kernel
  exact ⟨hrun, (session_eq_batch false false lines hlines hcommands hnesting hrun).1⟩

end Reckoner
