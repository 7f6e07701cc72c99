import Reckoner.Eval.Workspace

/-!
# The meaning of expressions

What an expression means is said by recursion: the children are evaluated from left to right up to
the first error, and then the rule for the kind of the root is applied to their values. Only one
function does this. The machine computes it: the tasks for a tree, whatever tasks are pending after
them and whatever values lie below, push the value of the tree or end in its error.
-/

namespace Reckoner

namespace Tree

/-- Whether there is a rule for the kind of the tree. -/
def isExpression : Tree → Bool
  | .number .. | .name .. | .binary .. | .factorial .. | .group .. | .empty .. => true
  | .bare .. | .assign .. | .print .. | .other .. => false

/-- Whether a function gives trees their meaning in the environment. -/
structure IsMeaning (env : Environment) (meaning : Tree → Except EvalError Float) : Prop where
  first_error (t : Tree) {before after : List Tree} {child : Tree} {e : EvalError} :
    t.children = before ++ child :: after → (∀ c ∈ before, ∃ value, meaning c = .ok value) →
      meaning child = .error e → meaning t = .error e
  number (pos : Position) (value : Float) : meaning (.number pos value) = .ok value
  name (pos : Position) (id : String) {value : Float} :
    env.get? id = some value → meaning (.name pos id) = .ok value
  unbound (pos : Position) (id : String) :
    env.get? id = none → meaning (.name pos id) = .error ⟨.undefinedVariable id, pos⟩
  empty (pos : Position) : meaning (.empty pos) = .ok 0
  group (pos : Position) {inner : Tree} {value : Float} :
    meaning inner = .ok value → meaning (.group pos inner) = .ok value
  binary (pos : Position) (op : Operator) {left right : Tree} {a b : Float} :
    meaning left = .ok a → meaning right = .ok b →
      meaning (.binary pos op left right) = .ok (op.apply a b)
  factorial (pos : Position) {operand : Tree} {value : Float} :
    meaning operand = .ok value → meaning (.factorial pos operand) = factorialAt pos value
  no_rule (t : Tree) :
    t.isExpression = false → (∀ c ∈ t.children, ∃ value, meaning c = .ok value) →
      meaning t = .error ⟨.cannotEvaluate t.kind, t.pos⟩

/-! ## The recursive evaluator -/

theorem eval_eq (env : Environment) (t : Tree) :
    t.eval env =
      match collect (t.children.map (eval env)) with
      | .ok operands => t.rule env operands
      | .error e => .error e :=
  fold_eq _ t

theorem collect_map_ok {f : Tree → Except EvalError Float} {ts : List Tree}
    (h : ∀ t ∈ ts, ∃ value, f t = .ok value) : ∃ values, collect (ts.map f) = .ok values := by
  induction ts with
  | nil => exact ⟨[], rfl⟩
  | cons t ts ih =>
      obtain ⟨value, hvalue⟩ := h t List.mem_cons_self
      obtain ⟨values, hvalues⟩ := ih fun u hu => h u (List.mem_cons_of_mem t hu)
      exact ⟨value :: values, by rw [List.map_cons, hvalue, collect, hvalues]⟩

theorem collect_map_error {f : Tree → Except EvalError Float} {before after : List Tree}
    {child : Tree} {e : EvalError} (h : ∀ t ∈ before, ∃ value, f t = .ok value)
    (hchild : f child = .error e) : collect ((before ++ child :: after).map f) = .error e := by
  induction before with
  | nil => rw [List.nil_append, List.map_cons, hchild, collect]
  | cons t ts ih =>
      obtain ⟨value, hvalue⟩ := h t List.mem_cons_self
      rw [List.cons_append, List.map_cons, hvalue, collect,
        ih fun u hu => h u (List.mem_cons_of_mem t hu)]

theorem length_of_collect {results : List (Except EvalError Float)} {values : List Float}
    (h : collect results = .ok values) : values.length = results.length := by
  induction results generalizing values with
  | nil =>
      cases h
      rfl
  | cons result results ih =>
      cases result with
      | error e => cases h
      | ok value =>
          rw [collect] at h
          split at h
          · next rest hrest =>
            cases h
            rw [List.length_cons, List.length_cons, ih hrest]
          · cases h

theorem isMeaning_eval (env : Environment) : IsMeaning env (eval env) where
  first_error t before after child e hchildren hbefore hchild := by
    rw [eval_eq, hchildren, collect_map_error hbefore hchild]
  number pos value := rfl
  name pos id value h := by simp [eval_eq, children, collect, rule, h]
  unbound pos id h := by simp [eval_eq, children, collect, rule, h]
  empty pos := rfl
  group pos inner value h := by
    rw [eval_eq]
    simp [children, collect, rule, h]
  binary pos op left right a b ha hb := by
    rw [eval_eq]
    simp [children, collect, rule, ha, hb]
  factorial pos operand value h := by
    rw [eval_eq]
    simp [children, collect, rule, h]
  no_rule t ht h := by
    obtain ⟨values, hvalues⟩ := collect_map_ok h
    rw [eval_eq, hvalues]
    cases t <;> first | rfl | cases ht

/-! ## Uniqueness -/

theorem exists_first_error (f : Tree → Except EvalError Float) (ts : List Tree) :
    (∀ t ∈ ts, ∃ value, f t = .ok value) ∨
      ∃ before child after e, ts = before ++ child :: after ∧
        (∀ t ∈ before, ∃ value, f t = .ok value) ∧ f child = .error e := by
  induction ts with
  | nil => exact Or.inl (by simp)
  | cons t ts ih =>
      match ht : f t with
      | .error e => exact Or.inr ⟨[], t, ts, e, rfl, by simp, ht⟩
      | .ok value =>
          rcases ih with hall | ⟨before, child, after, e, rfl, hbefore, hchild⟩
          · exact Or.inl (List.forall_mem_cons.mpr ⟨⟨value, ht⟩, hall⟩)
          · exact Or.inr ⟨t :: before, child, after, e, rfl,
              List.forall_mem_cons.mpr ⟨⟨value, ht⟩, hbefore⟩, hchild⟩

theorem IsMeaning.unique {env : Environment} {f g : Tree → Except EvalError Float}
    (hf : IsMeaning env f) (hg : IsMeaning env g) : f = g := by
  funext t
  induction t using induction_children with
  | step t ih =>
      rcases exists_first_error f t.children with hall | ⟨before, child, after, e, ht, hb, hc⟩
      · have hall' : ∀ c ∈ t.children, ∃ value, g c = .ok value := fun c hc => ih c hc ▸ hall c hc
        cases t with
        | number pos value => rw [hf.number, hg.number]
        | name pos id =>
            cases hget : env.get? id with
            | none => rw [hf.unbound pos id hget, hg.unbound pos id hget]
            | some value => rw [hf.name pos id hget, hg.name pos id hget]
        | empty pos => rw [hf.empty, hg.empty]
        | group pos inner =>
            obtain ⟨value, hvalue⟩ := hall inner (by simp [children])
            rw [hf.group pos hvalue, hg.group pos (ih inner (by simp [children]) ▸ hvalue)]
        | binary pos op left right =>
            obtain ⟨a, ha⟩ := hall left (by simp [children])
            obtain ⟨b, hb⟩ := hall right (by simp [children])
            rw [hf.binary pos op ha hb, hg.binary pos op (ih left (by simp [children]) ▸ ha)
              (ih right (by simp [children]) ▸ hb)]
        | factorial pos operand =>
            obtain ⟨value, hvalue⟩ := hall operand (by simp [children])
            have hvalue' := ih operand (by simp [children]) ▸ hvalue
            rw [hf.factorial pos hvalue, hg.factorial pos hvalue']
        | _ => rw [hf.no_rule _ rfl hall, hg.no_rule _ rfl hall']
      · have hmem (c : Tree) (h : c ∈ before ++ child :: after) : f c = g c := ih c (ht ▸ h)
        have hb' : ∀ c ∈ before, ∃ value, g c = .ok value := fun c h =>
          hmem c (List.mem_append_left _ h) ▸ hb c h
        rw [hf.first_error t ht hb hc, hg.first_error t ht hb' (hmem child (by simp) ▸ hc)]

end Tree

/-! ## The machine -/

/-- Whether the machine ends with the outcome after so many rounds. -/
inductive Task.Ends (env : Environment) :
    Nat → List Task → List Float → Except EvalError (List Float) → Prop
  | done (values : List Float) : Ends env 0 [] values (.ok values)
  | visit {n : Nat} {t : Tree} {pending : List Task} {values : List Float}
      {outcome : Except EvalError (List Float)} :
      Ends env n (t.children.map .visit ++ .finish t :: pending) values outcome →
        Ends env (n + 1) (.visit t :: pending) values outcome
  | finish {n : Nat} {t : Tree} {pending : List Task} {values : List Float} {value : Float}
      {outcome : Except EvalError (List Float)} :
      t.rule env (values.take t.children.length).reverse = .ok value →
        Ends env n pending (value :: values.drop t.children.length) outcome →
          Ends env (n + 1) (.finish t :: pending) values outcome
  | fail {t : Tree} {pending : List Task} {values : List Float} {e : EvalError} :
      t.rule env (values.take t.children.length).reverse = .error e →
        Ends env 1 (.finish t :: pending) values (.error e)

theorem exists_ends (env : Environment) (pending : List Task) (values : List Float) :
    ∃ n ≤ total (pending.map Task.cost),
      Task.Ends env n pending values (runTasks env pending values) := by
  fun_induction runTasks env pending values with
  | case1 values => exact ⟨0, Nat.le_refl 0, .done values⟩
  | case2 t pending values ih =>
      obtain ⟨n, hn, hends⟩ := ih
      refine ⟨n + 1, ?_, .visit hends⟩
      simp only [List.map_append, total_append, List.map_cons, total_cons, Task.total_cost_visit,
        Task.cost] at hn ⊢
      rw [Tree.size_eq t]
      omega
  | case3 t pending values arity value hrule ih =>
      obtain ⟨n, hn, hends⟩ := ih
      refine ⟨n + 1, ?_, .finish hrule hends⟩
      simp only [List.map_cons, total_cons, Task.cost]
      omega
  | case4 t pending values arity e hrule =>
      refine ⟨1, ?_, .fail hrule⟩
      simp only [List.map_cons, total_cons, Task.cost]
      omega

/-- The tasks for a tree push its value or end in its error. -/
theorem runTasks_visit (env : Environment) (t : Tree) (pending : List Task) (values : List Float) :
    runTasks env (.visit t :: pending) values =
      match t.eval env with
      | .ok value => runTasks env pending (value :: values)
      | .error e => .error e := by
  induction t using Tree.induction_children generalizing pending values with
  | step t ih =>
      -- The children push their values one after the other, or the first error ends the run.
      have hchildren (ts : List Tree) (hts : ∀ c ∈ ts, c ∈ t.children) (values : List Float) :
          runTasks env (ts.map .visit ++ .finish t :: pending) values =
            match Tree.collect (ts.map (Tree.eval env)) with
            | .ok operands => runTasks env (.finish t :: pending) (operands.reverse ++ values)
            | .error e => .error e := by
        induction ts generalizing values with
        | nil => rfl
        | cons c cs ihcs =>
            rw [List.map_cons, List.cons_append, ih c (hts c List.mem_cons_self), List.map_cons]
            cases c.eval env with
            | error e => rfl
            | ok value =>
                rw [Tree.collect]
                simp only [ihcs (fun d hd => hts d (List.mem_cons_of_mem c hd))]
                cases Tree.collect (cs.map (Tree.eval env)) with
                | error e => rfl
                | ok operands => simp
      rw [runTasks, hchildren t.children (fun c hc => hc), Tree.eval_eq]
      cases hcollect : Tree.collect (t.children.map (Tree.eval env)) with
      | error e => rfl
      | ok operands =>
          have hlen : t.children.length = operands.reverse.length := by
            rw [List.length_reverse, Tree.length_of_collect hcollect, List.length_map]
          cases hrule : t.rule env operands with
          | error e => simp only [runTasks, hlen, List.take_left, List.reverse_reverse, hrule]
          | ok value =>
              simp only [runTasks, hlen, List.take_left, List.drop_left, List.reverse_reverse,
                hrule]

theorem runTasks_tree (env : Environment) (t : Tree) :
    runTasks env [.visit t] [] = (t.eval env).map fun value => [value] := by
  rw [runTasks_visit]
  cases t.eval env with
  | error e => rfl
  | ok value => simp [runTasks, Except.map]

theorem evaluate_eq_eval (env : Environment) (t : Tree) : evaluate env t = t.eval env := by
  rw [evaluate, runTasks_tree]
  cases t.eval env <;> rfl

theorem applyAll_bare (w : Workspace) (pos : Position) (t : Tree) :
    w.applyAll (interpret w.environment [.bare pos t]).effects = w ∧
      (interpret w.environment [.bare pos t]).environment = w.environment := by
  cases hvalue : evaluate w.environment t with
  | error e => simp [interpret, execute, hvalue, Except.map, Workspace.applyAll]
  | ok value =>
      simp [interpret, execute, hvalue, Except.map, Workspace.applyAll, Workspace.apply,
        Effect.apply, Effect.printed?]

/-- The machine computes the meaning of every tree: it ends within two rounds for each tree in it,
with a single value or an error; no other function is a meaning; and an expression that is
evaluated leaves the variables and the printed values as they are. -/
theorem evaluate_isMeaning (env : Environment) :
    Tree.IsMeaning env (evaluate env) ∧
      (∀ meaning, Tree.IsMeaning env meaning → meaning = evaluate env) ∧
      (∀ t : Tree, evaluate env t = t.eval env) ∧
      (∀ t : Tree, ∃ n ≤ 2 * t.size,
        Task.Ends env n [.visit t] [] ((evaluate env t).map fun value => [value])) ∧
      ∀ (t : Tree) (pos : Position) (printed : List Float),
        (interpret env [.bare pos t]).environment = env ∧
          Workspace.applyAll ⟨env, printed⟩ (interpret env [.bare pos t]).effects =
            ⟨env, printed⟩ := by
  have hsame : evaluate env = Tree.eval env := funext (evaluate_eq_eval env)
  refine ⟨?_, fun meaning hmeaning => ?_, evaluate_eq_eval env, fun t => ?_, ?_⟩
  · rw [hsame]
    exact Tree.isMeaning_eval env
  · rw [hsame]
    exact hmeaning.unique (Tree.isMeaning_eval env)
  · obtain ⟨n, hn, hends⟩ := exists_ends env [.visit t] []
    rw [runTasks_tree, ← evaluate_eq_eval] at hends
    exact ⟨n, by simpa [Task.cost] using hn, hends⟩
  · intro t pos printed
    exact ⟨(applyAll_bare ⟨env, printed⟩ pos t).2, (applyAll_bare ⟨env, printed⟩ pos t).1⟩

end Reckoner
