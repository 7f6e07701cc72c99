import Reckoner.Eval.Program
import Reckoner.Proofs.Parse.LiveText

/-!
# Statements that succeed before one that fails

A run does exactly what the statements before the first failure do. What they do is said without
the run: the expression of each one has a value where the bindings of those before it hold, an
assignment binds its value and a print statement hands it to the sink. A text that does not parse
does nothing, and a statement that fails is the only one of its kind.
-/

namespace Reckoner

namespace Environment

/-- The environment in which variables are given values one after the other. -/
def extend (env : Environment) (bindings : List (String × Float)) : Environment :=
  bindings.foldl (fun env binding => env.insert binding.1 binding.2) env

@[simp] theorem extend_nil (env : Environment) : env.extend [] = env := rfl

theorem extend_append (env : Environment) (xs ys : List (String × Float)) :
    env.extend (xs ++ ys) = (env.extend xs).extend ys :=
  List.foldl_append

/-- Of several values the last one counts, and a variable that is given none keeps its own. -/
theorem get?_extend (env : Environment) (bindings : List (String × Float)) (id : String) :
    (env.extend bindings).get? id = (bindings.reverse.lookup id).or (env.get? id) := by
  induction bindings generalizing env with
  | nil => rfl
  | cons binding bindings ih =>
      have hstep : env.extend (binding :: bindings) =
          (env.insert binding.1 binding.2).extend bindings := rfl
      rw [hstep, ih, get?_insert, List.reverse_cons, List.lookup_append]
      obtain ⟨other, value⟩ := binding
      cases bindings.reverse.lookup id with
      | some last => rfl
      | none =>
          by_cases h : id = other
          · simp [h]
          · simp [h, List.lookup_cons, beq_eq_false_iff_ne.mpr h]

end Environment

/-! ## Statements with the values of their expressions -/

namespace Tree

def binding? (t : Tree) (value : Float) : Option (String × Float) :=
  match t with
  | .assign _ id _ => some (id, value)
  | _ => none

def output? (t : Tree) (value : Float) : Option Float :=
  match t with
  | .print _ _ => some value
  | _ => none

/-- The bindings that statements make whose expressions have the values. -/
def bindings (statements : List Tree) (values : List Float) : List (String × Float) :=
  (statements.zip values).filterMap fun p => p.1.binding? p.2

/-- The values that statements print whose expressions have the values. -/
def outputs (statements : List Tree) (values : List Float) : List Float :=
  (statements.zip values).filterMap fun p => p.1.output? p.2

/-- Whether the statements succeed one after the other with the values of their expressions. -/
inductive Succeed : Environment → List Tree → List Float → Prop
  | nil (env : Environment) : Succeed env [] []
  | cons {env : Environment} {t body : Tree} {value : Float} {ts : List Tree}
      {values : List Float} :
      t.body? = some body → evaluate env body = .ok value →
        Succeed (env.extend (t.binding? value).toList) ts values →
          Succeed env (t :: ts) (value :: values)

/-- Whether the statements before the index succeed with the values, and the one there fails. -/
structure FailsAt (env : Environment) (statements : List Tree) (k : Nat) (values : List Float)
    (e : EvalError) : Prop where
  succeed : Succeed env (statements.take k) values
  fails : ∃ t body, statements[k]? = some t ∧ t.body? = some body ∧
    evaluate (env.extend (bindings (statements.take k) values)) body = .error e

theorem bindings_cons (t : Tree) (ts : List Tree) (value : Float) (values : List Float) :
    bindings (t :: ts) (value :: values) = (t.binding? value).toList ++ bindings ts values := by
  cases h : t.binding? value <;> simp [bindings, h]

theorem Succeed.unique {env : Environment} {ts : List Tree} {values values' : List Float}
    (h : Succeed env ts values) (h' : Succeed env ts values') : values = values' := by
  induction h generalizing values' with
  | nil env =>
      cases h'
      rfl
  | cons hbody hvalue _ ih =>
      cases h' with
      | cons hbody' hvalue' hrest =>
          rw [hbody] at hbody'
          cases hbody'
          rw [hvalue] at hvalue'
          cases hvalue'
          rw [ih hrest]

/-- Where all statements succeed none of them fails. -/
theorem Succeed.not_failsAt {env : Environment} {ts : List Tree} {values values' : List Float}
    {k : Nat} {e : EvalError} (h : Succeed env ts values) : ¬ FailsAt env ts k values' e := by
  rintro ⟨hsucceed, t, body, hget, hbody, hfails⟩
  induction h generalizing k values' with
  | nil env => cases hget
  | @cons env t' body' value ts values hbody' hvalue _ ih =>
      cases k with
      | zero =>
          cases hsucceed
          cases hget
          rw [hbody] at hbody'
          cases hbody'
          have hsame : evaluate env body = .error e := hfails
          rw [hvalue] at hsame
          cases hsame
      | succ k =>
          cases hsucceed with
          | cons hbody'' hvalue'' hrest =>
              rw [hbody'] at hbody''
              cases hbody''
              rw [hvalue] at hvalue''
              cases hvalue''
              rw [List.take_succ_cons, bindings_cons, Environment.extend_append] at hfails
              exact ih hrest (by simpa using hget) hfails

theorem FailsAt.unique {env : Environment} {ts : List Tree} {k k' : Nat}
    {values values' : List Float} {e e' : EvalError} (h : FailsAt env ts k values e)
    (h' : FailsAt env ts k' values' e') : k = k' ∧ values = values' ∧ e = e' := by
  -- If one index came first, the statement there would both succeed and fail.
  have hle {k k' : Nat} {values values' : List Float} {e e' : EvalError}
      (h : FailsAt env ts k values e) (h' : FailsAt env ts k' values' e') : k' ≤ k := by
    by_contra hlt
    have hless : k < k' := by omega
    have hfirst : (ts.take k').take k = ts.take k := by
      rw [List.take_take, Nat.min_eq_left hless.le]
    obtain ⟨t, body, hget, hbody, hfails⟩ := h.fails
    have hearly : FailsAt env (ts.take k') k values e := by
      refine ⟨hfirst ▸ h.succeed, t, body, ?_, hbody, hfirst ▸ hfails⟩
      rwa [List.getElem?_take_of_lt hless]
    exact h'.succeed.not_failsAt hearly
  obtain rfl : k = k' := Nat.le_antisymm (hle h' h) (hle h h')
  obtain rfl := h.succeed.unique h'.succeed
  obtain ⟨t, body, hget, hbody, hfails⟩ := h.fails
  obtain ⟨t', body', hget', hbody', hfails'⟩ := h'.fails
  rw [hget] at hget'
  cases hget'
  rw [hbody] at hbody'
  cases hbody'
  rw [hfails] at hfails'
  exact ⟨rfl, rfl, Except.error.inj hfails'⟩

/-! ## Effects -/

def effect (t : Tree) (value : Float) : Effect :=
  match t with
  | .assign _ id _ => .bound id value
  | .print _ _ => .printed value
  | _ => .valued value

theorem apply_effect (t : Tree) (value : Float) (env : Environment) :
    (t.effect value).apply env = env.extend (t.binding? value).toList := by
  cases t <;> rfl

theorem printed?_effect (t : Tree) (value : Float) :
    (t.effect value).printed? = t.output? value := by
  cases t <;> rfl

theorem execute_eq {t body : Tree} (h : t.body? = some body) (env : Environment) :
    execute env t = (evaluate env body).map t.effect := by
  cases t <;> cases h <;> rfl

theorem IsStatement.exists_body {t : Tree} (h : t.IsStatement) : ∃ body, t.body? = some body := by
  cases t with
  | bare pos body => exact ⟨body, rfl⟩
  | assign pos id body => exact ⟨body, rfl⟩
  | print pos body => exact ⟨body, rfl⟩
  | _ => cases h

/-- The effects of statements whose expressions have the values. -/
def effects (statements : List Tree) (values : List Float) : List Effect :=
  (statements.zip values).map fun p => p.1.effect p.2

theorem filterMap_printed?_effects (ts : List Tree) (values : List Float) :
    (effects ts values).filterMap Effect.printed? = outputs ts values := by
  rw [effects, List.filterMap_map, outputs]
  simp only [Function.comp_def, printed?_effect]

/-- Statements run either all of them or up to the first that fails. -/
theorem interpret_cases (env : Environment) (ts : List Tree)
    (h : ∀ t ∈ ts, ∃ body, t.body? = some body) :
    (∃ values, Succeed env ts values ∧
      interpret env ts = ⟨effects ts values, none, env.extend (bindings ts values)⟩) ∨
    ∃ k values e, FailsAt env ts k values e ∧
      interpret env ts = ⟨effects (ts.take k) values, some e,
        env.extend (bindings (ts.take k) values)⟩ := by
  -- A statement that succeeds leaves its bindings to the others, which fail or succeed from there.
  induction ts generalizing env with
  | nil => exact Or.inl ⟨[], .nil env, rfl⟩
  | cons t ts ih =>
      obtain ⟨body, hbody⟩ := h t List.mem_cons_self
      cases hvalue : evaluate env body with
      | error e =>
          refine Or.inr ⟨0, [], e, ⟨.nil env, t, body, rfl, hbody, hvalue⟩, ?_⟩
          simp [interpret, execute_eq hbody, hvalue, Except.map, effects, bindings]
      | ok value =>
          have hstep : interpret env (t :: ts) =
              let rest := interpret (env.extend (t.binding? value).toList) ts
              ⟨t.effect value :: rest.effects, rest.error?, rest.environment⟩ := by
            rw [interpret, execute_eq hbody, hvalue, ← apply_effect]
            rfl
          rcases ih (env.extend (t.binding? value).toList)
            fun u hu => h u (List.mem_cons_of_mem t hu) with
            ⟨values, hsucceed, hrest⟩ | ⟨k, values, e, ⟨hsucceed, hfails⟩, hrest⟩
          · refine Or.inl ⟨value :: values, .cons hbody hvalue hsucceed, ?_⟩
            rw [hstep, hrest, bindings_cons, Environment.extend_append]
            rfl
          · refine Or.inr ⟨k + 1, value :: values, e, ⟨.cons hbody hvalue hsucceed, ?_⟩, ?_⟩
            · obtain ⟨u, body', hget, hbody', hfails⟩ := hfails
              refine ⟨u, body', by simpa using hget, hbody', ?_⟩
              rwa [List.take_succ_cons, bindings_cons, Environment.extend_append]
            · rw [hstep, hrest, List.take_succ_cons, bindings_cons, Environment.extend_append]
              rfl

end Tree

/-! ## Runs -/

section Sink

variable {σ : Type} (sink : σ → Float → σ)

/-- The state of a sink after an effect: it is called with the value that is printed. -/
def Effect.deliver (s : σ) : Effect → σ
  | .printed value => sink s value
  | _ => s

/-- The state of a sink that is called during a run. -/
def Run.deliver (run : Run) (s : σ) : σ :=
  run.effects.foldl (Effect.deliver sink) s

theorem foldl_deliver (effects : List Effect) (s : σ) :
    effects.foldl (Effect.deliver sink) s = (effects.filterMap Effect.printed?).foldl sink s := by
  induction effects generalizing s with
  | nil => rfl
  | cons effect effects ih =>
      rw [List.foldl_cons, ih]
      cases effect <;> rfl

end Sink

theorem isStatement_of_parseSource {source : String} {statements : List Tree}
    (h : (parseSource source).1 = .ok statements) : ∀ t ∈ statements, t.IsStatement := by
  have hprogram : Parse.program (Reader.ofSource source) =
      (.ok statements, (Parse.program (Reader.ofSource source)).2) :=
    Prod.ext h rfl
  obtain ⟨xs, hreads⟩ :=
    (Parse.ensures_program (Reader.kind_ending_ofSource source)).of_ok hprogram
  exact hreads.isStatement

theorem run_of_error {source : String} {f : ParseFailure}
    (h : (parseSource source).1 = .error f) (env : Environment) :
    (run env source).error? = some (.parse f) ∧ (run env source).environment = env ∧
      (run env source).effects = [] := by
  match hparse : parseSource source with
  | (.ok statements, trail) => simp [hparse] at h
  | (.error f', trail) =>
      have hsame : f' = f := by simpa [hparse] using h
      simp [run, runSource, hparse, hsame]

theorem runSource_of_ok {source : String} {statements : List Tree}
    (h : (parseSource source).1 = .ok statements) (counter : Option Part) (env : Environment) :
    (runSource counter env source).error? = (interpret env statements).error?.map .eval ∧
      (runSource counter env source).environment = (interpret env statements).environment ∧
      (runSource counter env source).effects = (interpret env statements).effects := by
  match hparse : parseSource source with
  | (.error f, trail) => simp [hparse] at h
  | (.ok statements', trail) =>
      have hsame : statements' = statements := by simpa [hparse] using h
      simp [runSource, hparse, hsame]

theorem run_of_ok {source : String} {statements : List Tree}
    (h : (parseSource source).1 = .ok statements) (env : Environment) :
    (run env source).error? = (interpret env statements).error?.map .eval ∧
      (run env source).environment = (interpret env statements).environment ∧
      (run env source).effects = (interpret env statements).effects :=
  runSource_of_ok h (some .interpreter) env

/-- Whether a run has done what the statements do whose expressions have the values, and nothing
else. -/
structure Run.Does (run : Run) (env : Environment) (statements : List Tree)
    (values : List Float) : Prop where
  environment_eq : run.environment = env.extend (Tree.bindings statements values)
  get?_eq (id : String) : run.environment.get? id =
    ((Tree.bindings statements values).reverse.lookup id).or (env.get? id)
  deliver_eq {σ : Type} (sink : σ → Float → σ) (s : σ) :
    run.deliver sink s = (Tree.outputs statements values).foldl sink s

theorem does_of_interpret {source : String} {statements : List Tree}
    (h : (parseSource source).1 = .ok statements) {env : Environment} {ts : List Tree}
    {values : List Float} {error? : Option EvalError}
    (hrun : interpret env statements =
      ⟨Tree.effects ts values, error?, env.extend (Tree.bindings ts values)⟩) :
    (run env source).Does env ts values := by
  obtain ⟨-, henv, heffects⟩ := run_of_ok h env
  rw [hrun] at henv heffects
  refine ⟨henv, fun id => ?_, fun sink s => ?_⟩
  · rw [henv, Environment.get?_extend]
  · rw [Run.deliver, foldl_deliver, heffects, Tree.filterMap_printed?_effects]

/-- A run is atomic up to statements. A text that does not parse changes no variable and calls no
sink. If a statement fails, exactly one does, and the variables and the sink are as the statements
before it leave them. Otherwise they are as all statements leave them, and the values in the result
are those that the sink was called with. -/
theorem run_atomic (env : Environment) (source : String) :
    match (run env source).error? with
    | some (.parse f) =>
      (parseSource source).1 = .error f ∧ (run env source).environment = env ∧
        ∀ {σ : Type} (sink : σ → Float → σ) (s : σ), (run env source).deliver sink s = s
    | some (.eval e) =>
      ∃ statements k values, (parseSource source).1 = .ok statements ∧
        Tree.FailsAt env statements k values e ∧
        (∀ k' values' e', Tree.FailsAt env statements k' values' e' → k' = k) ∧
        (run env source).Does env (statements.take k) values
    | none =>
      ∃ statements values, (parseSource source).1 = .ok statements ∧
        Tree.Succeed env statements values ∧
        (run env source).Does env statements values ∧
        (run env source).printed =
          (run env source).deliver (fun seen value => seen ++ [value]) [] := by
  match hparse : (parseSource source).1 with
  | .error f =>
      obtain ⟨herror, henv, heffects⟩ := run_of_error hparse env
      rw [herror]
      exact ⟨rfl, henv, fun sink s => by rw [Run.deliver, heffects, List.foldl_nil]⟩
  | .ok statements =>
      obtain ⟨herror, -, -⟩ := run_of_ok hparse env
      have hbodies : ∀ t ∈ statements, ∃ body, t.body? = some body := fun t ht =>
        (isStatement_of_parseSource hparse t ht).exists_body
      rcases Tree.interpret_cases env statements hbodies with
        ⟨values, hsucceed, hrun⟩ | ⟨k, values, e, hfails, hrun⟩
      · rw [herror, hrun]
        refine ⟨statements, values, rfl, hsucceed, does_of_interpret hparse hrun, ?_⟩
        rw [Run.deliver, foldl_deliver, List.foldl_append_eq_append, ← List.flatMap_def,
          List.flatMap_singleton', List.nil_append, Run.printed]
      · rw [herror, hrun]
        exact ⟨statements, k, values, rfl, hfails, fun k' values' e' h => (h.unique hfails).1,
          does_of_interpret hparse hrun⟩

end Reckoner
