import Reckoner.Proofs.Eval.Atomicity
import Reckoner.Proofs.Eval.Meaning
import Reckoner.Proofs.Tree.Relocation

/-!
# Programs joined by a newline

Two texts with a newline between them have the tokens of both, parse if and only if both parse, and
run as the first text followed by the second one in the environment that is left. Only the positions
in the second text change, and what a program does depends on no position.
-/

namespace Reckoner

open Grammar

/-! ## Parsed texts -/

theorem layout_of_parseSource {source : String} {statements : List Tree}
    (h : (parseSource source).1 = .ok statements) :
    (tokenize source).error? = none ∧ (∀ t ∈ statements, t.IsStatement) ∧
      Tree.Layout statements (tokenize source).tokens := by
  have hlex := Cursor.lexical_of_mem_tokens (Cursor.start source)
  have hprogram : Parse.program (Reader.ofSource source) =
      (.ok statements, (Parse.program (Reader.ofSource source)).2) :=
    Prod.ext h rfl
  obtain ⟨xs, hreads⟩ :=
    (Parse.ensures_program (Reader.kind_ending_ofSource source)).of_ok hprogram
  obtain ⟨hnil, rfl⟩ := hreads.takes_all fun t ht => (hlex t ht).kind_ne_endOfInput
  have herror := Reader.error_of_settled hreads.settled hnil
  rw [hreads.takes.error_eq] at herror
  exact ⟨herror, hreads.isStatement, hreads.layout hlex⟩

/-- A text within the limit parses exactly if it has no error and its tokens spell statements. -/
theorem parseSource_eq_ok_iff {source : String} {statements : List Tree}
    (hnesting : nesting (tokenize source).tokens ≤ Parse.nestingLimit) :
    (parseSource source).1 = .ok statements ↔
      (tokenize source).error? = none ∧ (∀ t ∈ statements, t.IsStatement) ∧
        Tree.Layout statements (tokenize source).tokens := by
  refine ⟨layout_of_parseSource, ?_⟩
  rintro ⟨herror, hall, hlayout⟩
  have hlex := Cursor.lexical_of_mem_tokens (Cursor.start source)
  -- The automaton accepts the tokens, so that the parser returns some statements, which can only be
  -- the given ones.
  obtain ⟨m, hrun, hcomplete⟩ := Tree.run_of_layout hlayout hall
  obtain ⟨others, r, hprogram⟩ := exists_program_of_run hlex hnesting hrun hcomplete
  have hreads := readsProgram_of_program hlex hprogram
  have hsame := Tree.layout_unique hlayout (hreads.layout hlex) hall hreads.isStatement
  have hlive := (Parse.uniform_program _ _ (Reader.alike_ofTokens source herror)).outcome
  rw [hsame]
  exact hlive.trans (congrArg Prod.fst hprogram)

theorem Token.relocate_relocate {f g : Position → Position} (h : ∀ p, g (f p) = p)
    (ts : List Token) : (ts.map (Token.relocate f)).map (Token.relocate g) = ts := by
  have hsame : Token.relocate g ∘ Token.relocate f = id := by
    funext t
    simp [Token.relocate, h]
  rw [List.map_map, hsame, List.map_id]

/-- A text whose tokens stand at other positions has its statements there. -/
theorem parseSource_relocate {s t : String} {f : Position → Position} {us : List Tree}
    (hnesting : nesting (tokenize s).tokens ≤ Parse.nestingLimit)
    (hs : (parseSource s).1 = .ok us) (herror : (tokenize t).error? = none)
    (htokens : (tokenize t).tokens = (tokenize s).tokens.map (Token.relocate f)) :
    (parseSource t).1 = .ok (us.map (Tree.relocate f)) := by
  obtain ⟨-, hall, hlayout⟩ := layout_of_parseSource hs
  have hnesting' : nesting (tokenize t).tokens ≤ Parse.nestingLimit := by
    rwa [htokens, nesting_relocate]
  refine (parseSource_eq_ok_iff hnesting').mpr ⟨herror, ?_, htokens ▸ hlayout.relocate hall f⟩
  intro u hu
  obtain ⟨v, hv, rfl⟩ := List.mem_map.mp hu
  exact (hall v hv).relocate f

theorem Position.lower_lower (n : Int) (p : Position) : (p.lower n).lower (-n) = p := by
  rw [lower, lower, Int.add_neg_cancel_right]

section Joined

variable {s t : String} {us vs : List Tree}
  (hs : nesting (tokenize s).tokens ≤ Parse.nestingLimit)
  (ht : nesting (tokenize t).tokens ≤ Parse.nestingLimit)

include hs ht

theorem nesting_joined (h : (tokenize s).error? = none) :
    nesting (tokenize (s ++ "\n" ++ t)).tokens ≤ Parse.nestingLimit := by
  rw [(tokenize_joined h).1, nesting_append rfl, nesting_relocate]
  exact Nat.max_le.mpr ⟨hs, ht⟩

theorem parseSource_joined (hus : (parseSource s).1 = .ok us) (hvs : (parseSource t).1 = .ok vs) :
    (parseSource (s ++ "\n" ++ t)).1 =
      .ok (us ++ vs.map (Tree.relocate (Position.lower (1 + s.toList.count '\n')))) := by
  obtain ⟨herror, hall, hlayout⟩ := layout_of_parseSource hus
  obtain ⟨herror', hall', hlayout'⟩ := layout_of_parseSource hvs
  obtain ⟨htokens, hnone⟩ := tokenize_joined (t := t) herror
  refine (parseSource_eq_ok_iff (nesting_joined hs ht herror)).mpr ⟨?_, ?_, ?_⟩
  · rw [hnone, herror', Option.map_none]
  · simp only [List.forall_mem_append, List.forall_mem_map]
    exact ⟨hall, fun v hv => (hall' v hv).relocate _⟩
  · rw [htokens]
    exact hlayout.append rfl (hlayout'.relocate hall' _)

/-- If joined texts parse, then so does each of them. -/
theorem exists_of_parseSource_joined {ws : List Tree}
    (h : (parseSource (s ++ "\n" ++ t)).1 = .ok ws) :
    ∃ us vs, (parseSource s).1 = .ok us ∧ (parseSource t).1 = .ok vs := by
  obtain ⟨hjoined, hall, hlayout⟩ := layout_of_parseSource h
  have herror := error?_of_joined hjoined
  obtain ⟨htokens, hnone⟩ := tokenize_joined (t := t) herror
  rw [htokens] at hlayout
  obtain ⟨us, vs, rfl, hus, hvs⟩ := hlayout.split rfl hall
  rw [List.forall_mem_append] at hall
  -- The statements of the second text are those of the joined one moved back up.
  have hback := hvs.relocate hall.2 (Position.lower (-(1 + s.toList.count '\n')))
  rw [Token.relocate_relocate (Position.lower_lower _)] at hback
  refine ⟨us, _, (parseSource_eq_ok_iff hs).mpr ⟨herror, hall.1, hus⟩,
    (parseSource_eq_ok_iff ht).mpr ⟨?_, ?_, hback⟩⟩
  · rw [hjoined] at hnone
    exact Option.map_eq_none_iff.mp hnone.symm
  · rw [List.forall_mem_map]
    exact fun v hv => (hall.2 v hv).relocate _

end Joined

/-! ## Statements at other positions -/

/-- The error at a moved position. -/
def EvalError.relocate (f : Position → Position) (e : EvalError) : EvalError :=
  { e with pos := f e.pos }

namespace Tree

variable (f : Position → Position) (env : Environment)

theorem collect_mapError (results : List (Except EvalError Float)) :
    collect (results.map (Except.mapError (EvalError.relocate f))) =
      (collect results).mapError (EvalError.relocate f) := by
  induction results with
  | nil => rfl
  | cons result results ih =>
      cases result with
      | error e => rfl
      | ok value =>
          rw [List.map_cons, Except.mapError, collect, collect, ih]
          cases collect results <;> rfl

theorem rule_relocate (t : Tree) (operands : List Float) :
    (t.relocate f).rule env operands = (t.rule env operands).mapError (EvalError.relocate f) := by
  cases t with
  | name pos id =>
      cases operands with
      | nil =>
          change (Tree.name (f pos) id).rule env [] = _
          cases h : env.get? id <;> simp [rule, h, Except.mapError, EvalError.relocate]
      | cons a operands => rfl
  | factorial pos operand =>
      rcases operands with _ | ⟨a, _ | ⟨b, operands⟩⟩
      · rfl
      · change factorialAt (f pos) a = (factorialAt pos a).mapError _
        unfold factorialAt
        split <;> rfl
      · rfl
  | _ => rcases operands with _ | ⟨a, _ | ⟨b, _ | ⟨c, operands⟩⟩⟩ <;> rfl

theorem eval_relocate (t : Tree) :
    (t.relocate f).eval env = (t.eval env).mapError (EvalError.relocate f) := by
  induction t using induction_children with
  | step t ih =>
      have hchildren : (t.relocate f).children.map (eval env) =
          (t.children.map (eval env)).map (Except.mapError (EvalError.relocate f)) := by
        rw [children_relocate, List.map_map, List.map_map]
        exact List.map_congr_left ih
      rw [eval_eq, hchildren, collect_mapError, eval_eq]
      cases collect (t.children.map (eval env)) with
      | ok operands => exact rule_relocate f env t operands
      | error e => rfl

theorem execute_relocate (t : Tree) :
    execute env (t.relocate f) = (execute env t).mapError (EvalError.relocate f) := by
  have hbody (body : Tree) (effect : Float → Effect) :
      (evaluate env (body.relocate f)).map effect =
        ((evaluate env body).map effect).mapError (EvalError.relocate f) := by
    rw [evaluate_eq_eval, evaluate_eq_eval, eval_relocate]
    cases body.eval env <;> rfl
  cases t with
  | bare pos body => exact hbody body .valued
  | assign pos id body => exact hbody body (.bound id)
  | print pos body => exact hbody body .printed
  | _ => rfl

/-- What statements do does not depend on their positions. -/
theorem interpret_relocate (ts : List Tree) :
    interpret env (ts.map (relocate f)) =
      ⟨(interpret env ts).effects, (interpret env ts).error?.map (EvalError.relocate f),
        (interpret env ts).environment⟩ := by
  induction ts generalizing env with
  | nil => rfl
  | cons t ts ih =>
      rw [List.map_cons, interpret, execute_relocate, interpret]
      cases execute env t with
      | error e => rfl
      | ok effect => simp only [Except.mapError, ih]

/-- Statements run one part after the other, the second one in the environment of the first. -/
theorem interpret_append (ts us : List Tree) :
    interpret env (ts ++ us) =
      match (interpret env ts).error? with
      | some _ => interpret env ts
      | none =>
        let rest := interpret (interpret env ts).environment us
        ⟨(interpret env ts).effects ++ rest.effects, rest.error?, rest.environment⟩ := by
  induction ts generalizing env with
  | nil => rfl
  | cons t ts ih =>
      rw [List.cons_append, interpret, interpret]
      cases execute env t with
      | error e => rfl
      | ok effect =>
          simp only [ih]
          cases h : (interpret (effect.apply env) ts).error? <;> simp [h]

/-- Where both parts succeed, their effects follow one another. -/
theorem interpret_joined {ts us : List Tree}
    (h : (interpret env (ts ++ us.map (relocate f))).error? = none) :
    (interpret env ts).error? = none ∧
      (interpret (interpret env ts).environment us).error? = none ∧
      interpret env (ts ++ us.map (relocate f)) =
        ⟨(interpret env ts).effects ++ (interpret (interpret env ts).environment us).effects, none,
          (interpret (interpret env ts).environment us).environment⟩ := by
  have hsplit := interpret_append env ts (us.map (relocate f))
  cases hfirst : (interpret env ts).error? with
  | some e =>
      rw [hsplit, hfirst] at h
      exact absurd (hfirst.symm.trans h) (by simp)
  | none =>
      simp only [hfirst, interpret_relocate] at hsplit
      rw [hsplit] at h
      have hrest := Option.map_eq_none_iff.mp h
      rw [hrest] at hsplit
      exact ⟨rfl, hrest, hsplit⟩

end Tree

/-! ## Joined programs -/

section Runs

variable {s t joined : String} {us vs : List Tree} {f : Position → Position} {env : Environment}

/-- Where the first part fails, the second one does nothing. -/
theorem run_of_first_fails (hus : (parseSource s).1 = .ok us)
    (hjoined : (parseSource joined).1 = .ok (us ++ vs)) {e : RunError}
    (h : (run env s).error? = some e) :
    (run env joined).error? = some e ∧
      (run env joined).environment = (run env s).environment ∧
      (run env joined).effects = (run env s).effects := by
  obtain ⟨herror, henv, heffects⟩ := run_of_ok hus env
  obtain ⟨herror', henv', heffects'⟩ := run_of_ok hjoined env
  rw [herror, Option.map_eq_some_iff] at h
  obtain ⟨problem, hfails, rfl⟩ := h
  rw [Tree.interpret_append, hfails] at herror' henv' heffects'
  rw [herror', henv', heffects', henv, heffects, hfails]
  exact ⟨rfl, rfl, rfl⟩

/-- Where the first part succeeds, the second one runs in its environment. -/
theorem run_of_first_succeeds (hus : (parseSource s).1 = .ok us)
    (hvs : (parseSource t).1 = .ok vs)
    (hjoined : (parseSource joined).1 = .ok (us ++ vs.map (Tree.relocate f)))
    (h : (run env s).error? = none) :
    (∃ error? : Option EvalError,
      (run (run env s).environment t).error? = error?.map .eval ∧
        (run env joined).error? = (error?.map (EvalError.relocate f)).map .eval) ∧
      (run env joined).environment = (run (run env s).environment t).environment ∧
      (run env joined).effects =
        (run env s).effects ++ (run (run env s).environment t).effects := by
  obtain ⟨herror, henv, heffects⟩ := run_of_ok hus env
  obtain ⟨herror', henv', heffects'⟩ := run_of_ok hvs (run env s).environment
  obtain ⟨herror'', henv'', heffects''⟩ := run_of_ok hjoined env
  rw [herror, Option.map_eq_none_iff] at h
  rw [Tree.interpret_append, h] at herror'' henv'' heffects''
  simp only [Tree.interpret_relocate, ← henv, ← heffects] at herror'' henv'' heffects''
  rw [herror', henv', heffects', herror'', henv'', heffects'']
  exact ⟨⟨_, rfl, rfl⟩, rfl, rfl⟩

end Runs

/-- Joining texts by a newline joins their tokens, their statements and their runs. The second text
stands as many lines further down as the first one has, in the same columns. -/
theorem joined_homomorphism (s t : String) (h : (tokenize s).error? = none) :
    let joined := s ++ "\n" ++ t
    let newlines := s.toList.count '\n'
    let below := Position.lower (1 + newlines)
    (tokenize joined).tokens =
      (tokenize s).tokens ++
        ⟨.terminator, .text "\n",
          ⟨1 + newlines, 1 + (s.toList.reverse.takeWhile (· != '\n')).length⟩, 1⟩ ::
        (tokenize t).tokens.map (Token.relocate below) ∧
    (tokenize joined).error? = (tokenize t).error?.map (ScanError.relocate below) ∧
    (nesting (tokenize s).tokens ≤ Parse.nestingLimit →
      nesting (tokenize t).tokens ≤ Parse.nestingLimit →
      ((∃ ws, (parseSource joined).1 = .ok ws) ↔
        (∃ us, (parseSource s).1 = .ok us) ∧ ∃ vs, (parseSource t).1 = .ok vs) ∧
      ∀ us vs, (parseSource s).1 = .ok us → (parseSource t).1 = .ok vs →
        (parseSource joined).1 = .ok (us ++ vs.map (Tree.relocate below)) ∧
        ∀ env,
          (∀ e, (run env s).error? = some e →
            (run env joined).error? = some e ∧
            (run env joined).environment = (run env s).environment ∧
            (run env joined).printed = (run env s).printed) ∧
          ((run env s).error? = none →
            (∃ error? : Option EvalError,
              (run (run env s).environment t).error? = error?.map .eval ∧
              (run env joined).error? = (error?.map (EvalError.relocate below)).map .eval) ∧
            (run env joined).environment = (run (run env s).environment t).environment ∧
            (run env joined).printed =
              (run env s).printed ++ (run (run env s).environment t).printed)) := by
  intro joined newlines below
  obtain ⟨htokens, herror⟩ := tokenize_joined (t := t) h
  rw [Position.past_start] at htokens
  refine ⟨htokens, herror, fun hs ht => ⟨⟨?_, ?_⟩, fun us vs hus hvs => ?_⟩⟩
  · rintro ⟨ws, hws⟩
    obtain ⟨us, vs, hus, hvs⟩ := exists_of_parseSource_joined hs ht hws
    exact ⟨⟨us, hus⟩, vs, hvs⟩
  · rintro ⟨⟨us, hus⟩, vs, hvs⟩
    exact ⟨_, parseSource_joined hs ht hus hvs⟩
  · have hjoined := parseSource_joined hs ht hus hvs
    refine ⟨hjoined, fun env => ⟨fun e he => ?_, fun hnone => ?_⟩⟩
    · obtain ⟨herror, henv, heffects⟩ := run_of_first_fails hus hjoined he
      exact ⟨herror, henv, congrArg (List.filterMap Effect.printed?) heffects⟩
    · obtain ⟨herror, henv, heffects⟩ := run_of_first_succeeds hus hvs hjoined hnone
      refine ⟨herror, henv, ?_⟩
      rw [Run.printed, heffects, List.filterMap_append]
      rfl

/-- An assignment with a comment after it and a print statement on the next line. -/
theorem joined_homomorphism_comment :
    let s := "x = y # set"
    let t := "print x"
    let env : Environment := ⟨[("y", 2)]⟩
    (tokenize s).error? = none ∧ (run env s).error? = none ∧
      (parseSource (s ++ "\n" ++ t)).1 = .ok [.assign ⟨1, 1⟩ "x" (.name ⟨1, 5⟩ "y"),
        .print ⟨2, 1⟩ (.name ⟨2, 7⟩ "x")] ∧
      (run env (s ++ "\n" ++ t)).printed =
        (run env s).printed ++ (run (run env s).environment t).printed := by
  intro s t env
  have hs : (tokenize s).error? = none := by decide +kernel
  have ht : (tokenize t).error? = none := by decide +kernel
  have hrun : (run env s).error? = none := by decide +kernel
  have hnesting : nesting (tokenize s).tokens ≤ Parse.nestingLimit := by decide +kernel
  have hnesting' : nesting (tokenize t).tokens ≤ Parse.nestingLimit := by decide +kernel
  have hus : (parseSource s).1 = .ok [.assign ⟨1, 1⟩ "x" (.name ⟨1, 5⟩ "y")] :=
    (parseSource_eq_ok_iff hnesting).mpr ⟨hs, by simp [Tree.IsStatement, Tree.Tiered.name],
      .last (by decide +kernel : (tokenize s).tokens.map Token.mark = _)⟩
  have hvs : (parseSource t).1 = .ok [.print ⟨1, 1⟩ (.name ⟨1, 7⟩ "x")] :=
    (parseSource_eq_ok_iff hnesting').mpr ⟨ht, by simp [Tree.IsStatement, Tree.Tiered.name],
      .last (by decide +kernel : (tokenize t).tokens.map Token.mark = _)⟩
  have hcount : s.toList.count '\n' = 0 := by decide +kernel
  obtain ⟨-, -, hjoined⟩ := joined_homomorphism s t hs
  obtain ⟨hparse, hruns⟩ := (hjoined hnesting hnesting').2 _ _ hus hvs
  rw [hcount] at hparse
  exact ⟨hs, hrun, hparse, ((hruns env).2 hrun).2.2⟩

end Reckoner
