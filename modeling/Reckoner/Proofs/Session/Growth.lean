import Reckoner.Proofs.Eval.Atomicity
import Reckoner.Session.Basic

/-!
# What an interpreter holds only grows

An interpreter lives through many operations. It is given statements or single trees, which may be
of any kind, lines that are typed in a session, and programs that run on its variables only. Each
operation does what the statements do that succeed before the first one that fails, and nothing
else. So no variable ever loses its value, a value changes only where an assignment succeeds, and
printed values are added at the end, each with a call of the sink.
-/

namespace Reckoner

/-! ## Statements of any kind -/

namespace Tree

/-- Whether a statement succeeds: its expression has the value. -/
def Yields (env : Environment) (t : Tree) (value : Float) : Prop :=
  ∃ body, t.body? = some body ∧ evaluate env body = .ok value

def isPrint : Tree → Bool
  | .print .. => true
  | _ => false

theorem Succeed.append {env : Environment} {ts us : List Tree} {values values' : List Float}
    (h : Succeed env ts values)
    (h' : Succeed (env.extend (bindings ts values)) us values') :
    Succeed env (ts ++ us) (values ++ values') := by
  induction h with
  | nil env => exact h'
  | cons hbody hvalue _ ih =>
      rw [bindings_cons, Environment.extend_append] at h'
      exact .cons hbody hvalue (ih h')

theorem Succeed.length_eq {env : Environment} {ts : List Tree} {values : List Float}
    (h : Succeed env ts values) : ts.length = values.length := by
  induction h with
  | nil env => rfl
  | cons _ _ _ ih => rw [List.length_cons, List.length_cons, ih]

/-- Statements that succeed print one value for each print statement. -/
theorem Succeed.length_outputs {env : Environment} {ts : List Tree} {values : List Float}
    (h : Succeed env ts values) : (outputs ts values).length = ts.countP isPrint := by
  induction h with
  | nil env => rfl
  | @cons env t body value ts values _ _ _ ih =>
      have hcons : outputs (t :: ts) (value :: values) =
          (t.output? value).toList ++ outputs ts values := by
        cases h : t.output? value <;> simp [outputs, h]
      rw [hcons, List.length_append, ih, List.countP_cons]
      cases t <;> simp [output?, isPrint, Nat.add_comm]

/-- A variable has the value that the last assignment to it found, or keeps its own. -/
theorem Succeed.get?_cases {env : Environment} {ts : List Tree} {values : List Float}
    (h : Succeed env ts values) (id : String) :
    ((∀ pos body, .assign pos id body ∉ ts) ∧
      (env.extend (bindings ts values)).get? id = env.get? id) ∨
    ∃ k pos body value, ts[k]? = some (.assign pos id body) ∧
      (∀ j > k, ∀ pos' body', ts[j]? ≠ some (.assign pos' id body')) ∧
      evaluate (env.extend (bindings (ts.take k) (values.take k))) body = .ok value ∧
      (env.extend (bindings ts values)).get? id = some value := by
  induction h with
  | nil env => exact Or.inl ⟨by simp, rfl⟩
  | @cons env t body value ts values hbody hvalue _ ih =>
      rw [bindings_cons, Environment.extend_append]
      rcases ih with ⟨hnone, hget⟩ | ⟨k, pos, body', value', hk, hlater, heval, hget⟩
      · by_cases ht : ∃ pos body', t = .assign pos id body'
        · -- No later statement assigns the variable, so that the first one is the last to do so.
          obtain ⟨pos, body', rfl⟩ := ht
          cases hbody
          refine Or.inr ⟨0, pos, body, value, rfl, fun j hj pos' body' hj' => ?_, hvalue, ?_⟩
          · obtain ⟨j, rfl⟩ : ∃ n, j = n + 1 := ⟨j - 1, by omega⟩
            exact hnone pos' body' (List.mem_of_getElem? (by simpa using hj'))
          · rw [hget]
            simp [binding?, Environment.extend, Environment.get?_insert]
        · refine Or.inl ⟨fun pos body' hmem => ?_, ?_⟩
          · rcases List.mem_cons.mp hmem with rfl | hmem
            · exact ht ⟨pos, body', rfl⟩
            · exact hnone pos body' hmem
          · rw [hget]
            cases t with
            | assign pos other body' =>
                have hother : id ≠ other := by
                  rintro rfl
                  exact ht ⟨pos, body', rfl⟩
                simp [binding?, Environment.extend, Environment.get?_insert, hother]
            | _ => rfl
      · refine Or.inr ⟨k + 1, pos, body', value', by simpa using hk, fun j hj pos' body'' hj' => ?_,
          ?_, hget⟩
        · obtain ⟨j, rfl⟩ : ∃ n, j = n + 1 := ⟨j - 1, by omega⟩
          exact hlater j (by omega) pos' body'' (by simpa using hj')
        · rwa [List.take_succ_cons, List.take_succ_cons, bindings_cons, Environment.extend_append]

theorem bindings_append {ts us : List Tree} {values values' : List Float}
    (h : ts.length = values.length) :
    bindings (ts ++ us) (values ++ values') = bindings ts values ++ bindings us values' := by
  rw [bindings, List.zip_append h, List.filterMap_append]
  rfl

/-- Whether, of trees that are run in order, those are executed that come before the first one that
does not succeed; the values are those of their expressions. -/
structure RunsTo (env : Environment) (ts executed : List Tree) (values : List Float) : Prop where
  succeed : Succeed env executed values
  stops : ∃ rest, ts = executed ++ rest ∧ ∀ t more, rest = t :: more →
    ∀ value, ¬ t.Yields (env.extend (bindings executed values)) value

theorem RunsTo.of_not_yields {env : Environment} {t : Tree} (ts : List Tree)
    (h : ∀ value, ¬ t.Yields env value) : RunsTo env (t :: ts) [] [] := by
  refine ⟨.nil env, t :: ts, rfl, ?_⟩
  rintro u more ⟨⟩
  exact h

theorem RunsTo.cons {env : Environment} {t : Tree} {ts executed : List Tree} {value : Float}
    {values : List Float} (ht : t.Yields env value)
    (h : RunsTo (env.extend (t.binding? value).toList) ts executed values) :
    RunsTo env (t :: ts) (t :: executed) (value :: values) := by
  obtain ⟨body, hbody, hvalue⟩ := ht
  obtain ⟨hsucceed, rest, rfl, hrest⟩ := h
  refine ⟨.cons hbody hvalue hsucceed, rest, rfl, ?_⟩
  rwa [bindings_cons, Environment.extend_append]

/-- A tree has an effect exactly if it succeeds. -/
theorem execute_cases (env : Environment) (t : Tree) :
    (∃ value, t.Yields env value ∧ execute env t = .ok (t.effect value)) ∨
      (∀ value, ¬ t.Yields env value) ∧ ∃ e, execute env t = .error e := by
  cases hbody : t.body? with
  | none =>
      refine Or.inr ⟨?_, ?_⟩
      · rintro value ⟨body, hsome, -⟩
        cases hbody.symm.trans hsome
      · cases t with
        | bare _ _ | assign _ _ _ | print _ _ => cases hbody
        | _ => exact ⟨_, rfl⟩
  | some body =>
      rw [execute_eq hbody]
      cases hvalue : evaluate env body with
      | error e =>
          refine Or.inr ⟨?_, e, rfl⟩
          rintro value ⟨body', hsome, hok⟩
          cases hbody.symm.trans hsome
          cases hvalue.symm.trans hok
      | ok value => exact Or.inl ⟨value, ⟨body, hbody, hvalue⟩, rfl⟩

/-- Trees of any kind have the effects of those that are executed. -/
theorem exists_runsTo (env : Environment) (ts : List Tree) :
    ∃ executed values, RunsTo env ts executed values ∧
      (interpret env ts).effects = effects executed values ∧
      (interpret env ts).environment = env.extend (bindings executed values) := by
  induction ts generalizing env with
  | nil => exact ⟨[], [], ⟨.nil env, [], rfl, by simp⟩, rfl, rfl⟩
  | cons t ts ih =>
      rcases execute_cases env t with ⟨value, hyields, hok⟩ | ⟨hnone, e, herror⟩
      · obtain ⟨executed, values, hruns, heffects, henv⟩ :=
          ih (env.extend (t.binding? value).toList)
        refine ⟨t :: executed, value :: values, hruns.cons hyields, ?_, ?_⟩
        · simp only [interpret, hok, apply_effect, heffects]
          rfl
        · simp only [interpret, hok, apply_effect, henv]
          rw [bindings_cons, Environment.extend_append]
      · refine ⟨[], [], .of_not_yields ts hnone, ?_, ?_⟩
        · simp [interpret, herror, effects]
        · simp [interpret, herror, bindings]

end Tree

theorem Workspace.applyAll_effects (w : Workspace) (ts : List Tree) (values : List Float) :
    w.applyAll (Tree.effects ts values) =
      ⟨w.environment.extend (Tree.bindings ts values),
        w.printed ++ Tree.outputs ts values⟩ := by
  rw [Tree.effects, Tree.bindings, Tree.outputs, applyAll]
  induction ts.zip values generalizing w with
  | nil => simp
  | cons p ps ih =>
      rw [List.map_cons, List.foldl_cons, ih, apply, Tree.apply_effect, Tree.printed?_effect]
      cases hbinding : p.1.binding? p.2 <;> cases houtput : p.1.output? p.2 <;>
        simp [hbinding, houtput, Environment.extend]

theorem runSource_of_error {source : String} {f : ParseFailure}
    (h : (parseSource source).1 = .error f) (counter : Option Part) (env : Environment) :
    (runSource counter env source).effects = [] ∧
      (runSource counter env source).environment = env := by
  match hparse : parseSource source with
  | (.ok statements, trail) => simp [hparse] at h
  | (.error f', trail) => simp [runSource, hparse]

/-! ## Interpreters -/

/-- What an interpreter holds, and the state of its sink. -/
structure Interpreter (σ : Type) where
  workspace : Workspace
  sink : σ

namespace Interpreter

/-- What can be asked of an interpreter. -/
inductive Operation
  /-- To run trees in order. -/
  | interpret (statements : List Tree)
  | execute (statement : Tree)
  | evaluate (expression : Tree)
  /-- To run a line that is typed in a session. -/
  | line (source : String)
  /-- To let another interpreter run a program on the same variables. -/
  | run (source : String)

/-- The trees that are executed if all goes well. -/
def Operation.statements : Operation → List Tree
  | .interpret statements => statements
  | .execute statement => [statement]
  | .evaluate _ => []
  | .line source | .run source =>
    match (parseSource source).1 with
    | .ok statements => statements
    | .error _ => []

/-- Whether values are printed by the interpreter itself. -/
def Operation.prints : Operation → Bool
  | .run _ => false
  | _ => true

section Perform

variable {σ : Type} (call : σ → Float → σ)

/-- The interpreter after effects, each printed value of which its sink is called with. -/
def undergo (i : Interpreter σ) (effects : List Effect) : Interpreter σ :=
  ⟨i.workspace.applyAll effects, effects.foldl (Effect.deliver call) i.sink⟩

/-- The interpreter after an operation, which may have failed. -/
def perform (i : Interpreter σ) : Operation → Interpreter σ
  | .interpret statements =>
    i.undergo call (Reckoner.interpret i.workspace.environment statements).effects
  | .execute statement =>
    match Reckoner.execute i.workspace.environment statement with
    | .ok effect => i.undergo call [effect]
    | .error _ => i
  | .evaluate expression =>
    match Reckoner.evaluate i.workspace.environment expression with
    | .ok _ => i
    | .error _ => i
  | .line source =>
    let run := runSource none i.workspace.environment source
    ⟨((⟨i.workspace, false, false⟩ : Session).runProgram source).session.workspace,
      run.deliver call i.sink⟩
  | .run source =>
    let run := Reckoner.run i.workspace.environment source
    ⟨⟨run.environment, i.workspace.printed⟩, i.sink⟩

/-- The interpreter after operations one after the other. -/
def performAll (i : Interpreter σ) (operations : List Operation) : Interpreter σ :=
  operations.foldl (perform call) i

end Perform

/-- What an operation has done: the statements that it executed, with the values of their
expressions. -/
structure Deed where
  operation : Operation
  executed : List Tree
  values : List Float

namespace Deed

def bindings (d : Deed) : List (String × Float) :=
  Tree.bindings d.executed d.values

/-- The values that the interpreter itself printed. -/
def printed (d : Deed) : List Float :=
  if d.operation.prints then Tree.outputs d.executed d.values else []

end Deed

/-- Whether operations do their deeds one after the other, and the variables with which they begin
and end. -/
inductive History : Environment → List Deed → Environment → Prop
  | nil (env : Environment) : History env [] env
  | cons {env final : Environment} {d : Deed} {ds : List Deed} :
      Tree.RunsTo env d.operation.statements d.executed d.values →
        History (env.extend d.bindings) ds final → History env (d :: ds) final

/-- All statements of a history succeed one after the other. -/
theorem History.succeed {env final : Environment} {ds : List Deed} (h : History env ds final) :
    Tree.Succeed env (ds.flatMap Deed.executed) (ds.flatMap Deed.values) ∧
      final = env.extend
        (Tree.bindings (ds.flatMap Deed.executed) (ds.flatMap Deed.values)) := by
  induction h with
  | nil env => exact ⟨.nil env, rfl⟩
  | @cons env final d ds hruns _ ih =>
      rw [List.flatMap_cons, List.flatMap_cons, Tree.bindings_append hruns.succeed.length_eq,
        Environment.extend_append]
      exact ⟨hruns.succeed.append ih.1, ih.2⟩

/-! ## Steps -/

section Steps

variable {σ : Type} {call : σ → Float → σ}

theorem undergo_effects (i : Interpreter σ) (ts : List Tree) (values : List Float) :
    i.undergo call (Tree.effects ts values) =
      ⟨⟨i.workspace.environment.extend (Tree.bindings ts values),
        i.workspace.printed ++ Tree.outputs ts values⟩,
        (Tree.outputs ts values).foldl call i.sink⟩ := by
  rw [undergo, Workspace.applyAll_effects, foldl_deliver, Tree.filterMap_printed?_effects]

/-- The effects of the statements of a text, whoever runs them. -/
theorem runSource_runsTo (counter : Option Part) (env : Environment) (source : String) :
    ∃ executed values,
      Tree.RunsTo env (Operation.run source).statements executed values ∧
      (runSource counter env source).effects = Tree.effects executed values ∧
      (runSource counter env source).environment =
        env.extend (Tree.bindings executed values) := by
  cases hparse : (parseSource source).1 with
  | error f =>
      obtain ⟨heffects, henv⟩ := runSource_of_error hparse counter env
      refine ⟨[], [], ⟨.nil env, [], ?_, by simp⟩, heffects, henv⟩
      simp [Operation.statements, hparse]
  | ok statements =>
      obtain ⟨-, henv, heffects⟩ := runSource_of_ok hparse counter env
      obtain ⟨executed, values, hruns, heffects', henv'⟩ := Tree.exists_runsTo env statements
      refine ⟨executed, values, ?_, heffects.trans heffects', henv.trans henv'⟩
      simpa [Operation.statements, hparse] using hruns

/-- An operation does what the statements do that it executes. -/
theorem exists_deed (call : σ → Float → σ) (i : Interpreter σ) (operation : Operation) :
    ∃ d : Deed, d.operation = operation ∧
      Tree.RunsTo i.workspace.environment operation.statements d.executed d.values ∧
      i.perform call operation =
        ⟨⟨i.workspace.environment.extend d.bindings, i.workspace.printed ++ d.printed⟩,
          d.printed.foldl call i.sink⟩ := by
  cases operation with
  | interpret statements =>
      obtain ⟨executed, values, hruns, heffects, -⟩ :=
        Tree.exists_runsTo i.workspace.environment statements
      refine ⟨⟨.interpret statements, executed, values⟩, rfl, hruns, ?_⟩
      rw [perform, heffects, undergo_effects]
      rfl
  | execute statement =>
      rcases Tree.execute_cases i.workspace.environment statement with
        ⟨value, hyields, hok⟩ | ⟨hnone, e, herror⟩
      · refine ⟨⟨.execute statement, [statement], [value]⟩, rfl,
          .cons hyields ⟨.nil _, [], rfl, by simp⟩, ?_⟩
        simp only [perform, hok]
        exact undergo_effects i [statement] [value]
      · refine ⟨⟨.execute statement, [], []⟩, rfl, .of_not_yields [] hnone, ?_⟩
        simp [perform, herror, Deed.bindings, Deed.printed, Tree.bindings, Tree.outputs]
  | evaluate expression =>
      refine ⟨⟨.evaluate expression, [], []⟩, rfl, ⟨.nil _, [], rfl, by simp⟩, ?_⟩
      simp only [perform]
      split <;> simp [Deed.bindings, Deed.printed, Tree.bindings, Tree.outputs]
  | line source =>
      obtain ⟨executed, values, hruns, heffects, -⟩ :=
        runSource_runsTo none i.workspace.environment source
      refine ⟨⟨.line source, executed, values⟩, rfl, hruns, ?_⟩
      have hundergo : i.perform call (.line source) =
          i.undergo call (runSource none i.workspace.environment source).effects := rfl
      rw [hundergo, heffects, undergo_effects]
      rfl
  | run source =>
      obtain ⟨executed, values, hruns, -, henv⟩ :=
        runSource_runsTo (some .interpreter) i.workspace.environment source
      refine ⟨⟨.run source, executed, values⟩, rfl, hruns, ?_⟩
      simp only [perform, run, henv]
      simp [Deed.bindings, Deed.printed, Operation.prints]

/-! ## Histories -/

theorem exists_history (call : σ → Float → σ) (i : Interpreter σ) (operations : List Operation) :
    ∃ deeds : List Deed, deeds.map Deed.operation = operations ∧
      History i.workspace.environment deeds (i.performAll call operations).workspace.environment ∧
      (i.performAll call operations).workspace.printed =
        i.workspace.printed ++ deeds.flatMap Deed.printed ∧
      (i.performAll call operations).sink = (deeds.flatMap Deed.printed).foldl call i.sink := by
  -- The other operations begin with the interpreter that the first one leaves, failed or not.
  induction operations generalizing i with
  | nil => exact ⟨[], rfl, .nil _, by simp [performAll], rfl⟩
  | cons operation operations ih =>
      obtain ⟨d, rfl, hruns, hperform⟩ := exists_deed call i operation
      obtain ⟨deeds, hops, hhistory, hprinted, hsink⟩ := ih (i.perform call d.operation)
      rw [hperform] at hhistory hprinted hsink
      have hfold : i.performAll call (d.operation :: operations) =
          (i.perform call d.operation).performAll call operations := rfl
      rw [hfold, hperform]
      refine ⟨d :: deeds, by rw [List.map_cons, hops], .cons hruns hhistory, ?_, ?_⟩
      · rw [hprinted, List.flatMap_cons, List.append_assoc]
      · rw [hsink, List.flatMap_cons, List.foldl_append]

end Steps

/-- An interpreter prints one value for each print statement that it executes itself. -/
theorem History.length_printed {env final : Environment} {ds : List Deed}
    (h : History env ds final) :
    (ds.flatMap Deed.printed).length =
      ((ds.filter fun d => d.operation.prints).flatMap Deed.executed).countP Tree.isPrint := by
  induction h with
  | nil env => rfl
  | @cons env final d ds hruns _ ih =>
      rw [List.flatMap_cons, List.length_append, ih, Deed.printed]
      cases hprints : d.operation.prints with
      | false => simp [hprints]
      | true =>
          rw [if_pos rfl, hruns.succeed.length_outputs, List.filter_cons, if_pos hprints,
            List.flatMap_cons, List.countP_append]

/-- Whatever is asked of an interpreter, in whatever order and with whatever success, has deeds:
each operation executes its statements up to the first that does not succeed, and begins with the
variables that the operations before it have left. No variable loses its value. A variable to which
no executed statement assigns keeps its value, and any other has the value that the expression of
the last assignment to it had just before. Printed values are added at the end, one for each print
statement that the interpreter executed itself, and the sink was called with these values in this
order. Evaluation changes nothing. -/
theorem interpreter_only_grows {σ : Type} (call : σ → Float → σ) (i : Interpreter σ)
    (operations : List Operation) :
    let before := i.workspace.environment
    let after := i.performAll call operations
    (∃ deeds : List Deed, deeds.map Deed.operation = operations ∧
      History before deeds after.workspace.environment ∧
      (∀ id, (before.get? id).isSome → (after.workspace.environment.get? id).isSome) ∧
      (∀ id,
        let executed := deeds.flatMap Deed.executed
        let values := deeds.flatMap Deed.values
        ((∀ pos body, .assign pos id body ∉ executed) ∧
          after.workspace.environment.get? id = before.get? id) ∨
        ∃ k pos body value, executed[k]? = some (.assign pos id body) ∧
          (∀ j > k, ∀ pos' body', executed[j]? ≠ some (.assign pos' id body')) ∧
          evaluate (before.extend (Tree.bindings (executed.take k) (values.take k))) body =
            .ok value ∧
          after.workspace.environment.get? id = some value) ∧
      after.workspace.printed = i.workspace.printed ++ deeds.flatMap Deed.printed ∧
      (deeds.flatMap Deed.printed).length =
        ((deeds.filter fun d => d.operation.prints).flatMap Deed.executed).countP Tree.isPrint ∧
      after.sink = (deeds.flatMap Deed.printed).foldl call i.sink) ∧
    ∀ expression, i.perform call (.evaluate expression) = i := by
  intro before after
  constructor
  · obtain ⟨deeds, hops, hhistory, hprinted, hsink⟩ := exists_history call i operations
    obtain ⟨hsucceed, hfinal⟩ := hhistory.succeed
    refine ⟨deeds, hops, hhistory, fun id hid => ?_, fun id => ?_, hprinted,
      hhistory.length_printed, hsink⟩
    · rw [hfinal, Environment.get?_extend, Option.isSome_or, hid, Bool.or_true]
    · rw [hfinal]
      exact hsucceed.get?_cases id
  · intro expression
    simp only [perform]
    split <;> rfl

end Interpreter

end Reckoner
