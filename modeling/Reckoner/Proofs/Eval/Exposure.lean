import Reckoner.Proofs.Eval.Joining

/-!
# What a run sees of its environment

A variable is exposed in a program if a statement reads it that no assignment to it precedes. A run
sees no other part of the environment in which it starts: environments that agree on the exposed
variables cannot be told apart by what is printed, by the error, or by the values of the variables
that were assigned. All other variables stay as they are.
-/

namespace Reckoner

namespace Tree

/-- The variables that a tree reads, from left to right. -/
def reads : Tree → List String :=
  fold fun t parts =>
    match t with
    | .name _ id => [id]
    | _ => parts.flatten

/-- The variable that a statement assigns to. -/
def target? : Tree → Option String
  | .assign _ id _ => some id
  | _ => none

/-- Whether a statement reads the variable and no statement before it assigns to it. -/
def Exposed (statements : List Tree) (id : String) : Prop :=
  ∃ before t after, statements = before ++ t :: after ∧ id ∈ t.reads ∧
    ∀ u ∈ before, u.target? ≠ some id

/-! ## Expressions -/

theorem mem_reads_of_mem_children {t child : Tree} (h : child ∈ t.children) {id : String}
    (hid : id ∈ child.reads) : id ∈ t.reads := by
  have hparts : id ∈ (t.children.map reads).flatten := by
    rw [List.mem_flatten]
    exact ⟨child.reads, List.mem_map_of_mem h, hid⟩
  rw [reads, fold_eq]
  cases t with
  | name pos other => cases h
  | _ => exact hparts

section Agreement

variable {env env' : Environment} {t : Tree}

theorem rule_congr (h : ∀ id ∈ t.reads, env.get? id = env'.get? id) (operands : List Float) :
    t.rule env operands = t.rule env' operands := by
  cases t with
  | name pos id =>
      have hid : env.get? id = env'.get? id := h id (List.mem_singleton_self id)
      cases operands with
      | nil => simp only [rule, hid]
      | cons a operands => rfl
  | _ => rcases operands with _ | ⟨a, _ | ⟨b, _ | ⟨c, operands⟩⟩⟩ <;> rfl

/-- The value of an expression depends on the variables that it reads alone. -/
theorem eval_congr (h : ∀ id ∈ t.reads, env.get? id = env'.get? id) :
    t.eval env = t.eval env' := by
  induction t using induction_children with
  | step t ih =>
      have hchildren : t.children.map (eval env) = t.children.map (eval env') := by
        apply List.map_congr_left
        intro child hchild
        exact ih child hchild fun id hid => h id (mem_reads_of_mem_children hchild hid)
      rw [eval_eq, eval_eq, hchildren]
      cases collect (t.children.map (eval env')) with
      | ok operands => exact rule_congr h operands
      | error e => rfl

end Agreement

/-! ## Statements -/

theorem mem_children_of_body? {t body : Tree} (h : t.body? = some body) : body ∈ t.children := by
  cases t <;> cases h <;> exact List.mem_singleton_self _

theorem binding?_eq (t : Tree) (value : Float) :
    t.binding? value = t.target?.map fun id => (id, value) := by
  cases t <;> rfl

theorem exposed_of_mem_reads {t : Tree} {ts : List Tree} {id : String} (h : id ∈ t.reads) :
    Exposed (t :: ts) id :=
  ⟨[], t, ts, rfl, h, by simp⟩

theorem Exposed.cons {t : Tree} {ts : List Tree} {id : String} (h : Exposed ts id)
    (ht : t.target? ≠ some id) : Exposed (t :: ts) id := by
  obtain ⟨before, u, after, rfl, hreads, hbefore⟩ := h
  refine ⟨t :: before, u, after, rfl, hreads, ?_⟩
  rw [List.forall_mem_cons]
  exact ⟨ht, hbefore⟩

theorem eq_take_append_cons {ts : List Tree} {k : Nat} {t : Tree} (h : ts[k]? = some t) :
    ts = ts.take k ++ t :: ts.drop (k + 1) := by
  obtain ⟨hk, rfl⟩ := List.getElem?_eq_some_iff.mp h
  rw [← List.drop_eq_getElem_cons hk, List.take_append_drop]

section Runs

variable {env env' : Environment} {us vs : List Tree} {values : List Float}

theorem evaluate_congr {t body : Tree} (hbody : t.body? = some body)
    (h : ∀ id, Exposed (t :: us) id → env.get? id = env'.get? id) :
    evaluate env body = evaluate env' body := by
  rw [evaluate_eq_eval, evaluate_eq_eval]
  apply eval_congr
  intro id hid
  exact h id (exposed_of_mem_reads (mem_reads_of_mem_children (mem_children_of_body? hbody) hid))

/-- A statement makes the same binding in both environments, which then agree on what the statements
after it read. -/
theorem agree_after {t : Tree} (value : Float)
    (h : ∀ id, Exposed (t :: us) id → env.get? id = env'.get? id) :
    ∀ id, Exposed us id → (env.extend (t.binding? value).toList).get? id =
      (env'.extend (t.binding? value).toList).get? id := by
  intro id hid
  rw [Environment.get?_extend, Environment.get?_extend]
  -- A variable that the statement assigns to need not be exposed, but is now bound in both.
  by_cases ht : t.target? = some id
  · simp [binding?_eq, ht]
  · rw [h id (hid.cons ht)]

/-- The values of statements do not depend on what they do not read first, and neither does what
they leave to the statements after them. -/
theorem Succeed.agree (h : Succeed env us values)
    (hagree : ∀ id, Exposed (us ++ vs) id → env.get? id = env'.get? id) :
    Succeed env' us values ∧ ∀ id, Exposed vs id →
      (env.extend (bindings us values)).get? id = (env'.extend (bindings us values)).get? id := by
  induction h generalizing env' with
  | nil env => exact ⟨.nil env', hagree⟩
  | @cons env t body value ts values hbody hvalue _ ih =>
      obtain ⟨hsucceed, hafter⟩ := ih (agree_after value hagree)
      have hvalue' : evaluate env' body = .ok value := by
        rw [← evaluate_congr hbody hagree]
        exact hvalue
      constructor
      · exact .cons hbody hvalue' hsucceed
      · rw [bindings_cons, Environment.extend_append, Environment.extend_append]
        exact hafter

theorem FailsAt.agree {k : Nat} {e : EvalError} (h : FailsAt env us k values e)
    (hagree : ∀ id, Exposed us id → env.get? id = env'.get? id) :
    FailsAt env' us k values e := by
  obtain ⟨hsucceed, t, body, hget, hbody, hfails⟩ := h
  rw [eq_take_append_cons hget] at hagree
  obtain ⟨hsucceed', hafter⟩ := hsucceed.agree hagree
  refine ⟨hsucceed', t, body, hget, hbody, ?_⟩
  rw [← evaluate_congr hbody hafter]
  exact hfails

theorem interpret_of_succeed (hbodies : ∀ t ∈ us, ∃ body, t.body? = some body)
    (h : Succeed env us values) :
    interpret env us = ⟨effects us values, none, env.extend (bindings us values)⟩ := by
  rcases interpret_cases env us hbodies with ⟨values', h', hrun⟩ | ⟨k, values', e, h', -⟩
  · rw [h.unique h']
    exact hrun
  · exact absurd h' h.not_failsAt

theorem interpret_of_failsAt (hbodies : ∀ t ∈ us, ∃ body, t.body? = some body) {k : Nat}
    {e : EvalError} (h : FailsAt env us k values e) :
    interpret env us =
      ⟨effects (us.take k) values, some e, env.extend (bindings (us.take k) values)⟩ := by
  rcases interpret_cases env us hbodies with ⟨values', h', -⟩ | ⟨k', values', e', h', hrun⟩
  · exact absurd h h'.not_failsAt
  · obtain ⟨rfl, rfl, rfl⟩ := h.unique h'
    exact hrun

/-! ## Variables afterwards -/

theorem Succeed.exists_lookup (h : Succeed env us values) {id : String}
    (hid : ∃ t ∈ us, t.target? = some id) :
    ∃ value, (bindings us values).reverse.lookup id = some value := by
  obtain ⟨t, ht, hid⟩ := hid
  induction h with
  | nil env => cases ht
  | @cons env u body value us values _ _ _ ih =>
      rw [bindings_cons, List.reverse_append, List.lookup_append]
      rcases List.mem_cons.mp ht with rfl | ht
      · cases (bindings us values).reverse.lookup id with
        | some last => exact ⟨last, rfl⟩
        | none => exact ⟨value, by simp [binding?_eq, hid]⟩
      · obtain ⟨last, hlast⟩ := ih ht
        exact ⟨last, by rw [hlast, Option.some_or]⟩

theorem lookup_bindings_of_forall_ne {id : String} (h : ∀ t ∈ us, t.target? ≠ some id) :
    (bindings us values).reverse.lookup id = none := by
  rw [List.lookup_eq_none_iff]
  intro binding hbinding
  rw [List.mem_reverse, bindings, List.mem_filterMap] at hbinding
  obtain ⟨⟨t, value⟩, hmem, hsome⟩ := hbinding
  rw [binding?_eq, Option.map_eq_some_iff] at hsome
  obtain ⟨other, hother, rfl⟩ := hsome
  have hne := h t (List.of_mem_zip hmem).1
  apply bne_iff_ne.mpr
  rintro rfl
  exact hne hother

end Runs

end Tree

/-! ## Two runs of a program -/

section Programs

variable {source : String} {statements : List Tree} {env env' : Environment}

theorem runs_agree (hparse : (parseSource source).1 = .ok statements) {ts : List Tree}
    {values : List Float} {error? : Option EvalError} (hsucceed : Tree.Succeed env ts values)
    (h : interpret env statements =
      ⟨Tree.effects ts values, error?, env.extend (Tree.bindings ts values)⟩)
    (h' : interpret env' statements =
      ⟨Tree.effects ts values, error?, env'.extend (Tree.bindings ts values)⟩) :
    (run env source).effects = (run env' source).effects ∧
    (run env source).error? = error?.map .eval ∧ (run env' source).error? = error?.map .eval ∧
    ∀ id,
      ((∃ t ∈ ts, t.target? = some id) → ∃ value,
        (run env source).environment.get? id = some value ∧
          (run env' source).environment.get? id = some value) ∧
      ((∀ t ∈ ts, t.target? ≠ some id) →
        (run env source).environment.get? id = env.get? id ∧
          (run env' source).environment.get? id = env'.get? id) := by
  obtain ⟨herror, -, heffects⟩ := run_of_ok hparse env
  obtain ⟨herror', -, heffects'⟩ := run_of_ok hparse env'
  rw [h] at herror heffects
  rw [h'] at herror' heffects'
  refine ⟨heffects.trans heffects'.symm, herror, herror', fun id => ?_⟩
  rw [(does_of_interpret hparse h).get?_eq, (does_of_interpret hparse h').get?_eq]
  constructor
  · intro hid
    obtain ⟨value, hvalue⟩ := hsucceed.exists_lookup hid
    rw [hvalue]
    exact ⟨value, rfl, rfl⟩
  · intro hid
    rw [Tree.lookup_bindings_of_forall_ne hid]
    exact ⟨rfl, rfl⟩

end Programs

/-- A run does not depend on variables that are not exposed. In environments that agree on the
exposed variables the same statements are executed: both runs succeed, or both fail at the same
statement with the same error. They print the same values, and leave the same value for each
variable to which an executed statement assigns. Every other variable is in each of them as it was
at the start. -/
theorem run_noninterference (source : String) (statements : List Tree)
    (hparse : (parseSource source).1 = .ok statements) (env env' : Environment)
    (hagree : ∀ id, Tree.Exposed statements id → env.get? id = env'.get? id) :
    let r := run env source
    let r' := run env' source
    r.printed = r'.printed ∧
    (∀ {σ : Type} (sink : σ → Float → σ) (s : σ), r.deliver sink s = r'.deliver sink s) ∧
    r.error? = r'.error? ∧
    ∃ executed values,
      (match r.error? with
      | none => executed = statements ∧
          Tree.Succeed env statements values ∧ Tree.Succeed env' statements values
      | some (.eval e) => ∃ k, executed = statements.take k ∧
          Tree.FailsAt env statements k values e ∧ Tree.FailsAt env' statements k values e
      | some (.parse _) => False) ∧
      ∀ id,
        ((∃ t ∈ executed, t.target? = some id) → ∃ value,
          r.environment.get? id = some value ∧ r'.environment.get? id = some value) ∧
        ((∀ t ∈ executed, t.target? ≠ some id) →
          r.environment.get? id = env.get? id ∧ r'.environment.get? id = env'.get? id) := by
  intro r r'
  have hbodies : ∀ t ∈ statements, ∃ body, t.body? = some body := fun t ht =>
    (isStatement_of_parseSource hparse t ht).exists_body
  have heffects (h : r.effects = r'.effects) : r.printed = r'.printed ∧
      ∀ {σ : Type} (sink : σ → Float → σ) (s : σ), r.deliver sink s = r'.deliver sink s :=
    ⟨congrArg (List.filterMap Effect.printed?) h, fun sink s =>
      congrArg (List.foldl (Effect.deliver sink) s) h⟩
  rcases Tree.interpret_cases env statements hbodies with
    ⟨values, hsucceed, hrun⟩ | ⟨k, values, e, hfails, hrun⟩
  · rw [← List.append_nil statements] at hagree
    have hsucceed' := (hsucceed.agree hagree).1
    obtain ⟨hsame, herror, herror', hget⟩ :=
      runs_agree hparse hsucceed hrun (Tree.interpret_of_succeed hbodies hsucceed')
    obtain ⟨hprinted, hdeliver⟩ := heffects hsame
    refine ⟨hprinted, hdeliver, herror.trans herror'.symm, statements, values, ?_, hget⟩
    rw [herror]
    exact ⟨rfl, hsucceed, hsucceed'⟩
  · have hfails' := hfails.agree hagree
    obtain ⟨hsame, herror, herror', hget⟩ :=
      runs_agree hparse hfails.succeed hrun (Tree.interpret_of_failsAt hbodies hfails')
    obtain ⟨hprinted, hdeliver⟩ := heffects hsame
    refine ⟨hprinted, hdeliver, herror.trans herror'.symm, statements.take k, values, ?_, hget⟩
    rw [herror]
    exact ⟨k, rfl, hfails, hfails'⟩

/-- The assignment reads its own target, which stays exposed; another variable is seen by neither
statement. -/
theorem run_noninterference_counter :
    let source := "a = a + b; print a"
    let env : Environment := ⟨[("a", 1), ("b", 2), ("c", 3)]⟩
    let env' : Environment := ⟨[("b", 2), ("a", 1)]⟩
    env.get? "c" ≠ env'.get? "c" ∧
      (run env source).printed = (run env' source).printed ∧
      (run env source).error? = (run env' source).error? := by
  intro source env env'
  let sum : Tree := .binary ⟨1, 7⟩ .plus (.name ⟨1, 5⟩ "a") (.name ⟨1, 9⟩ "b")
  let statements : List Tree := [.assign ⟨1, 1⟩ "a" sum, .print ⟨1, 12⟩ (.name ⟨1, 18⟩ "a")]
  have hparse : (parseSource source).1 = .ok statements := by
    let tokens := (tokenize source).tokens
    have htokens : tokens =
        tokens.take 5 ++ ⟨.terminator, .text ";", ⟨1, 10⟩, 1⟩ :: tokens.drop 6 := by
      decide +kernel
    refine (parseSource_eq_ok_iff (by decide +kernel)).mpr ⟨by decide +kernel, ?_, ?_⟩
    · have hsum : sum.Tiered := .binary _ (.name _ _) (.name _ _) (by decide) (by decide)
      simp [statements, Tree.IsStatement, Tree.Tiered.name, hsum]
    · change Tree.Layout statements tokens
      rw [htokens]
      exact .cons (by decide +kernel : (tokens.take 5).map Token.mark = _) rfl
        (.last (by decide +kernel : (tokens.drop 6).map Token.mark = _))
  have hagree : ∀ id, Tree.Exposed statements id → env.get? id = env'.get? id := by
    rintro id ⟨before, t, after, hsplit, hreads, -⟩
    have hreads' : id ∈ statements.flatMap Tree.reads := by
      rw [hsplit, List.mem_flatMap]
      exact ⟨t, by simp, hreads⟩
    have hnames : id ∈ ["a", "b", "a"] := hreads'
    have hall : ∀ id ∈ ["a", "b", "a"], env.get? id = env'.get? id := by decide +kernel
    exact hall id hnames
  obtain ⟨hprinted, -, hsame, -⟩ := run_noninterference source statements hparse env env' hagree
  exact ⟨by decide +kernel, hprinted, hsame⟩

end Reckoner
