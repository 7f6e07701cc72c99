import Reckoner.Proofs.Eval.Exposure
import Reckoner.Proofs.Number.Whole
import Reckoner.Proofs.Scan.Positions

/-!
# Errors in the order of the text

Only reads of variables and factorials can fail, and each of them has one token, the name or the
`!`. Children are evaluated from left to right before their parent, and `!` stands after its
operand, so that the order in which they are tried is that of their tokens. Hence an expression
fails at the first of its tokens that fails, whatever the nesting, and a program at the first such
token of the first statement that has one.
-/

namespace Reckoner

namespace Tree

/-- Whether a part of a tree is a read or a factorial, with its own token at the index among the
tokens of the tree. -/
inductive Occurs : Tree → Nat → Tree → Prop
  | read (pos : Position) (id : String) : Occurs (.name pos id) 0 (.name pos id)
  | bang (pos : Position) (operand : Tree) :
      Occurs (.factorial pos operand) operand.marks.length (.factorial pos operand)
  | operand (pos : Position) {part operand : Tree} {i : Nat} :
      Occurs part i operand → Occurs part i (.factorial pos operand)
  | left (pos : Position) (op : Operator) (right : Tree) {part left : Tree} {i : Nat} :
      Occurs part i left → Occurs part i (.binary pos op left right)
  | right (pos : Position) (op : Operator) (left : Tree) {part right : Tree} {i : Nat} :
      Occurs part i right → Occurs part (left.marks.length + 1 + i) (.binary pos op left right)
  | group (pos : Position) {part inner : Tree} {i : Nat} :
      Occurs part i inner → Occurs part (1 + i) (.group pos inner)
  | bare (pos : Position) {part body : Tree} {i : Nat} :
      Occurs part i body → Occurs part (0 + i) (.bare pos body)
  | assign (pos : Position) (id : String) {part body : Tree} {i : Nat} :
      Occurs part i body → Occurs part (2 + i) (.assign pos id body)
  | print (pos : Position) {part body : Tree} {i : Nat} :
      Occurs part i body → Occurs part (1 + i) (.print pos body)

/-- Whether a read or a factorial fails: the variable has no value, or the operand has one that is
no natural number. -/
inductive Fails (env : Environment) : Tree → EvalError → Prop
  | read (pos : Position) {id : String} :
      env.get? id = none → Fails env (.name pos id) ⟨.undefinedVariable id, pos⟩
  | bang (pos : Position) {operand : Tree} {value : Float} :
      evaluate env operand = .ok value → ¬ Number.IsNatural value →
        Fails env (.factorial pos operand) ⟨.noFactorial value, pos⟩

/-- The mark of the token of a read or a factorial. -/
def ownMark? : Tree → Option Mark
  | .name pos id => some ⟨.name, some (.text id), some pos⟩
  | .factorial pos _ => some ⟨.bang, none, some pos⟩
  | _ => none

theorem Occurs.lt {part t : Tree} {i : Nat} (h : part.Occurs i t) : i < t.marks.length := by
  induction h with
  | read pos id => exact Nat.one_pos
  | _ =>
      simp only [marks, List.length_append, List.length_cons, List.length_nil]
      omega

theorem Occurs.getElem?_marks {part t : Tree} {i : Nat} (h : part.Occurs i t) :
    t.marks[i]? = part.ownMark? := by
  induction h with
  | read pos id => rfl
  | bang pos operand => simp [marks, ownMark?]
  | operand pos hpart ih => rw [← ih, marks, List.getElem?_append_left hpart.lt]
  | left pos op right hpart ih => rw [← ih, marks, List.getElem?_append_left hpart.lt]
  | @right pos op left part right i hpart ih =>
      rw [← ih, marks, Nat.add_assoc, List.getElem?_append_right (Nat.le_add_right _ _),
        Nat.add_sub_cancel_left, Nat.add_comm 1, List.getElem?_cons_succ]
  | group pos hpart ih =>
      rw [← ih, marks, Nat.add_comm, List.getElem?_cons_succ,
        List.getElem?_append_left hpart.lt]
  | bare pos hpart ih => rw [← ih, marks, Nat.zero_add]
  | assign pos id hpart ih =>
      rw [← ih, marks, Nat.add_comm, List.getElem?_cons_succ, List.getElem?_cons_succ]
  | print pos hpart ih => rw [← ih, marks, Nat.add_comm, List.getElem?_cons_succ]

/-! ## Expressions -/

/-- Whether nothing in a tree fails if the result is a value, and the error is that of the first
part that fails otherwise. -/
def FirstFailure (env : Environment) (t : Tree) : Except EvalError Float → Prop
  | .ok _ => ∀ (part : Tree) (i : Nat) (e : EvalError), part.Occurs i t → ¬ part.Fails env e
  | .error e => ∃ (part : Tree) (i : Nat), part.Occurs i t ∧ part.Fails env e ∧
      ∀ (part' : Tree) (j : Nat) (e' : EvalError),
        part'.Occurs j t → part'.Fails env e' → i ≤ j

section Order

variable {env : Environment} {t u left right operand : Tree}

/-- What fails first in a tree fails first in one that has the same parts at indices shifted by a
constant. -/
theorem FirstFailure.shift {result : Except EvalError Float} {n : Nat}
    (h : FirstFailure env t result)
    (hparts : ∀ (part : Tree) (i : Nat), part.Occurs i u ↔ ∃ j, i = n + j ∧ part.Occurs j t) :
    FirstFailure env u result := by
  cases result with
  | ok value =>
      intro part i e hpart
      obtain ⟨j, -, hinner⟩ := (hparts part i).mp hpart
      exact h part j e hinner
  | error e =>
      obtain ⟨part, i, hpart, hfails, hfirst⟩ := h
      refine ⟨part, n + i, (hparts part _).mpr ⟨i, rfl, hpart⟩, hfails, ?_⟩
      intro part' j e' hpart' hfails'
      obtain ⟨j, rfl, hinner⟩ := (hparts part' _).mp hpart'
      exact Nat.add_le_add_left (hfirst part' j e' hinner hfails') n

theorem occurs_group_iff (pos : Position) (inner part : Tree) (i : Nat) :
    part.Occurs i (.group pos inner) ↔ ∃ j, i = 1 + j ∧ part.Occurs j inner := by
  constructor
  · intro h
    cases h with
    | group _ hinner => exact ⟨_, rfl, hinner⟩
  · rintro ⟨j, rfl, hinner⟩
    exact .group pos hinner

theorem firstFailure_group (pos : Position) (h : FirstFailure env t (t.eval env)) :
    FirstFailure env (.group pos t) ((group pos t).eval env) := by
  have hsame : (group pos t).eval env = t.eval env := by
    cases hinner : t.eval env with
    | ok value => exact (isMeaning_eval env).group pos hinner
    | error e =>
        have hchildren : (group pos t).children = [] ++ t :: [] := rfl
        exact (isMeaning_eval env).first_error _ hchildren (by simp) hinner
  rw [hsame]
  exact h.shift (occurs_group_iff pos t)

theorem firstFailure_factorial (pos : Position)
    (h : FirstFailure env operand (operand.eval env)) :
    FirstFailure env (.factorial pos operand) ((factorial pos operand).eval env) := by
  cases hoperand : operand.eval env with
  | error e =>
      have hchildren : (factorial pos operand).children = [] ++ operand :: [] := rfl
      rw [(isMeaning_eval env).first_error _ hchildren (by simp) hoperand]
      rw [hoperand] at h
      obtain ⟨part, i, hpart, hfails, hfirst⟩ := h
      refine ⟨part, i, .operand pos hpart, hfails, ?_⟩
      intro part' j e' hpart' hfails'
      cases hpart' with
      | bang => exact Nat.le_of_lt hpart.lt
      | operand _ hinner => exact hfirst part' j e' hinner hfails'
  -- Nothing fails in the operand, so that only the `!` is left, which stands after it.
  | ok value =>
      rw [(isMeaning_eval env).factorial pos hoperand, factorialAt]
      rw [hoperand] at h
      have hvalue : evaluate env operand = .ok value := by
        rw [evaluate_eq_eval, hoperand]
      cases hfactorial : Number.factorial? value with
      | some result =>
          intro part i e hpart hfails
          cases hpart with
          | operand _ hinner => exact h part i e hinner hfails
          | bang =>
              cases hfails with
              | bang _ hvalue' hnatural =>
                  rw [hvalue] at hvalue'
                  cases hvalue'
                  rw [(Number.factorial?_eq_none_iff value).mpr hnatural] at hfactorial
                  cases hfactorial
      | none =>
          have hnatural := (Number.factorial?_eq_none_iff value).mp hfactorial
          refine ⟨_, _, .bang pos operand, .bang pos hvalue hnatural, ?_⟩
          intro part' j e' hpart' hfails'
          cases hpart' with
          | bang => exact Nat.le_refl _
          | operand _ hinner => exact absurd hfails' (h part' j e' hinner)

theorem firstFailure_binary (pos : Position) (op : Operator)
    (hl : FirstFailure env left (left.eval env)) (hr : FirstFailure env right (right.eval env)) :
    FirstFailure env (.binary pos op left right) ((binary pos op left right).eval env) := by
  cases hleft : left.eval env with
  -- The right operand is not evaluated, but what fails there stands after the operator.
  | error e =>
      have hchildren : (binary pos op left right).children = [] ++ left :: [right] := rfl
      rw [(isMeaning_eval env).first_error _ hchildren (by simp) hleft]
      rw [hleft] at hl
      obtain ⟨part, i, hpart, hfails, hfirst⟩ := hl
      refine ⟨part, i, .left pos op right hpart, hfails, ?_⟩
      intro part' j e' hpart' hfails'
      cases hpart' with
      | left _ _ _ hinner => exact hfirst part' j e' hinner hfails'
      | right _ _ _ hinner =>
          have hlt := hpart.lt
          omega
  | ok a =>
      rw [hleft] at hl
      cases hright : right.eval env with
      | error e =>
          have hchildren : (binary pos op left right).children = [left] ++ right :: [] := rfl
          rw [(isMeaning_eval env).first_error _ hchildren (by simp [hleft]) hright]
          rw [hright] at hr
          obtain ⟨part, i, hpart, hfails, hfirst⟩ := hr
          refine ⟨part, _, .right pos op left hpart, hfails, ?_⟩
          intro part' j e' hpart' hfails'
          cases hpart' with
          | left _ _ _ hinner => exact absurd hfails' (hl part' j e' hinner)
          | right _ _ _ hinner =>
              exact Nat.add_le_add_left (hfirst part' _ e' hinner hfails') _
      | ok b =>
          rw [(isMeaning_eval env).binary pos op hleft hright]
          rw [hright] at hr
          intro part i e hpart
          cases hpart with
          | left _ _ _ hinner => exact hl part i e hinner
          | right _ _ _ hinner => exact hr part _ e hinner

/-- An expression fails at the first of its tokens that fails, and has a value if there is none. -/
theorem firstFailure_eval (h : t.Tiered) : FirstFailure env t (t.eval env) := by
  induction h with
  | number pos value =>
      intro part i e hpart
      cases hpart
  | name pos id =>
      cases hget : env.get? id with
      | some value =>
          rw [(isMeaning_eval env).name pos id hget]
          intro part i e hpart hfails
          cases hpart
          cases hfails with
          | read _ hnone =>
              rw [hget] at hnone
              cases hnone
      | none =>
          rw [(isMeaning_eval env).unbound pos id hget]
          exact ⟨_, 0, .read pos id, .read pos hget, fun _ _ _ _ _ => Nat.zero_le _⟩
  | group pos _ ih => exact firstFailure_group pos ih
  | factorial pos _ _ ih => exact firstFailure_factorial pos ih
  | binary pos _ _ _ _ ihl ihr => exact firstFailure_binary pos _ ihl ihr

/-! ## Statements -/

theorem firstFailure_evaluate (env : Environment) {body : Tree} (h : t.IsStatement)
    (hbody : t.body? = some body) : FirstFailure env t (evaluate env body) := by
  rw [evaluate_eq_eval]
  cases t with
  | bare pos body' =>
      cases hbody
      refine (firstFailure_eval h.1).shift (n := 0) fun part i => ⟨fun hpart => ?_, ?_⟩
      · cases hpart with
        | bare _ hinner => exact ⟨_, rfl, hinner⟩
      · rintro ⟨j, rfl, hinner⟩
        exact .bare pos hinner
  | assign pos id body' =>
      cases hbody
      refine FirstFailure.shift (firstFailure_eval h) (n := 2) fun part i => ⟨fun hpart => ?_, ?_⟩
      · cases hpart with
        | assign _ _ hinner => exact ⟨_, rfl, hinner⟩
      · rintro ⟨j, rfl, hinner⟩
        exact .assign pos id hinner
  | print pos body' =>
      cases hbody
      refine FirstFailure.shift (firstFailure_eval h) (n := 1) fun part i => ⟨fun hpart => ?_, ?_⟩
      · cases hpart with
        | print _ hinner => exact ⟨_, rfl, hinner⟩
      · rintro ⟨j, rfl, hinner⟩
        exact .print pos hinner
  | _ => cases h

theorem Succeed.take {us : List Tree} {values : List Float} (h : Succeed env us values) (k : Nat) :
    Succeed env (us.take k) (values.take k) := by
  induction h generalizing k with
  | nil env =>
      rw [List.take_nil, List.take_nil]
      exact .nil env
  | cons hbody hvalue _ ih =>
      cases k with
      | zero => exact .nil _
      | succ k => exact .cons hbody hvalue (ih k)

theorem Succeed.get?_eq_none_iff {us : List Tree} {values : List Float}
    (h : Succeed env us values) (id : String) :
    (env.extend (bindings us values)).get? id = none ↔
      env.get? id = none ∧ ∀ u ∈ us, u.target? ≠ some id := by
  rw [Environment.get?_extend]
  constructor
  · intro hnone
    rw [Option.or_eq_none_iff] at hnone
    refine ⟨hnone.2, fun u hu hid => ?_⟩
    obtain ⟨value, hvalue⟩ := h.exists_lookup ⟨u, hu, hid⟩
    rw [hvalue] at hnone
    cases hnone.1
  · rintro ⟨hnone, hall⟩
    rw [lookup_bindings_of_forall_ne hall, Option.none_or, hnone]

end Order

theorem Layout.marks_filter {statements : List Tree} {ts : List Token} (h : Layout statements ts)
    (hall : ∀ t ∈ statements, t.IsStatement) :
    (ts.filter (·.kind ≠ .terminator)).map Token.mark = statements.flatMap marks := by
  have hspelled {t : Tree} {xs : List Token} (ht : t.IsStatement) (hspells : t.Spells xs) :
      (xs.filter (·.kind ≠ .terminator)).map Token.mark = t.marks := by
    have hkeep : ∀ x ∈ xs, decide (x.kind ≠ .terminator) = true := fun x hx =>
      decide_eq_true (kind_ne_terminator ht hspells x hx)
    rw [List.filter_eq_self.mpr hkeep]
    exact hspells
  induction h with
  | nil => rfl
  | skip hk _ ih =>
      rw [List.filter_cons_of_neg (by simp [hk])]
      exact ih hall
  | last hspells =>
      rw [hspelled (hall _ (by simp)) hspells, List.flatMap_singleton]
  | cons hspells hk _ ih =>
      rw [List.forall_mem_cons] at hall
      rw [List.filter_append, List.filter_cons_of_neg (by simp [hk]), List.map_append,
        hspelled hall.1 hspells, ih hall.2, List.flatMap_cons]

end Tree

/-! ## Tokens of a program -/

/-- The tokens of a text that its statements consist of: all but the terminators. -/
def statementTokens (source : String) : List Token :=
  (tokenize source).tokens.filter (·.kind ≠ .terminator)

/-- Number of tokens of the statements before the one with the index. -/
def tokensBefore (statements : List Tree) (k : Nat) : Nat :=
  ((statements.take k).flatMap Tree.marks).length

/-- The token with the index `i` of the statement with the index `k`. -/
def tokenAt? (source : String) (statements : List Tree) (k i : Nat) : Option Token :=
  (statementTokens source)[tokensBefore statements k + i]?

/-- Whether a token of the statement with the index `k` fails when that statement starts: those
before it have succeeded. -/
def FailingToken (env : Environment) (source : String) (statements : List Tree) (k : Nat)
    (tok : Token) (e : EvalError) : Prop :=
  ∃ (t part : Tree) (i : Nat) (values : List Float), statements[k]? = some t ∧
    Tree.Succeed env (statements.take k) values ∧ part.Occurs i t ∧
    part.Fails (env.extend (Tree.bindings (statements.take k) values)) e ∧
    tokenAt? source statements k i = some tok

/-- Whether a token reads a variable that is neither bound at the start nor assigned to by a
statement before its own. -/
def UnboundRead (env : Environment) (source : String) (statements : List Tree) (tok : Token)
    (id : String) : Prop :=
  ∃ (t : Tree) (k i : Nat), statements[k]? = some t ∧ (Tree.name tok.pos id).Occurs i t ∧
    tokenAt? source statements k i = some tok ∧ env.get? id = none ∧
    ∀ u ∈ statements.take k, u.target? ≠ some id

theorem Token.eq_of_mark_name {tok : Token} {value : Value} {pos : Position}
    (h : tok.mark = ⟨.name, some value, some pos⟩) :
    tok.kind = .name ∧ tok.value = value ∧ tok.pos = pos := by
  have hkind : tok.kind = .name := congrArg Mark.kind h
  simpa [mark, hkind] using h

theorem Token.eq_of_mark_bang {tok : Token} {pos : Position}
    (h : tok.mark = ⟨.bang, none, some pos⟩) : tok.kind = .bang ∧ tok.pos = pos := by
  have hkind : tok.kind = .bang := congrArg Mark.kind h
  simpa [mark, hkind] using h

section Tokens

variable {source : String} {statements : List Tree} {k k' i i' : Nat} {t part : Tree}
  {tok tok' : Token}

theorem tokensBefore_add_lt (ht : statements[k]? = some t) (hi : i < t.marks.length)
    (hk : k < k') : tokensBefore statements k + i < tokensBefore statements k' := by
  have ht' : (statements.take k')[k]? = some t := by rwa [List.getElem?_take_of_lt hk]
  have hsplit := Tree.eq_take_append_cons ht'
  rw [List.take_take, Nat.min_eq_left hk.le] at hsplit
  rw [tokensBefore, tokensBefore, hsplit, List.flatMap_append, List.flatMap_cons,
    List.length_append, List.length_append]
  omega

theorem exists_tokenAt (hparse : (parseSource source).1 = .ok statements)
    (ht : statements[k]? = some t) (hpart : part.Occurs i t) :
    ∃ tok ∈ (tokenize source).tokens,
      tokenAt? source statements k i = some tok ∧ part.ownMark? = some tok.mark := by
  obtain ⟨-, hall, hlayout⟩ := layout_of_parseSource hparse
  have hmarks : (statementTokens source).map Token.mark =
      (statements.take k).flatMap Tree.marks ++
        (t.marks ++ (statements.drop (k + 1)).flatMap Tree.marks) := by
    rw [← List.flatMap_cons, ← List.flatMap_append, ← Tree.eq_take_append_cons ht]
    exact hlayout.marks_filter hall
  have hmark : (tokenAt? source statements k i).map Token.mark = t.marks[i]? := by
    rw [tokenAt?, tokensBefore, ← List.getElem?_map, hmarks,
      List.getElem?_append_right (Nat.le_add_right _ _), Nat.add_sub_cancel_left,
      List.getElem?_append_left hpart.lt]
  rw [List.getElem?_eq_getElem hpart.lt, Option.map_eq_some_iff] at hmark
  obtain ⟨tok, htok, hown⟩ := hmark
  refine ⟨tok, List.mem_of_mem_filter (List.mem_of_getElem? htok), htok, ?_⟩
  rw [← hpart.getElem?_marks, List.getElem?_eq_getElem hpart.lt, hown]

/-- The tokens of statements stand in the text in their order. -/
theorem precedes_of_lt (h : tokenAt? source statements k i = some tok)
    (h' : tokenAt? source statements k' i' = some tok')
    (hlt : tokensBefore statements k + i < tokensBefore statements k' + i') :
    tok.Precedes tok' := by
  have hpairwise : (statementTokens source).Pairwise Token.Precedes :=
    (tokens_pairwise_precedes source).filter _
  obtain ⟨hbound, rfl⟩ := List.getElem?_eq_some_iff.mp h
  obtain ⟨hbound', rfl⟩ := List.getElem?_eq_some_iff.mp h'
  exact List.pairwise_iff_getElem.mp hpairwise _ _ hbound hbound' hlt

end Tokens

/-! ## Programs -/

section Programs

variable {env : Environment} {source : String} {statements : List Tree} {k : Nat} {tok : Token}
  {values : List Float} {e : EvalError}

variable (hparse : (parseSource source).1 = .ok statements)

include hparse

theorem run_error_cases (env : Environment) :
    ((run env source).error? = none ∧ ∃ values, Tree.Succeed env statements values) ∨
      ∃ k values e, (run env source).error? = some (.eval e) ∧
        Tree.FailsAt env statements k values e := by
  obtain ⟨herror, -, -⟩ := run_of_ok hparse env
  rcases Tree.interpret_cases env statements fun t ht =>
    (isStatement_of_parseSource hparse t ht).exists_body with
    ⟨values, hsucceed, hrun⟩ | ⟨k, values, e, hfails, hrun⟩
  · rw [hrun] at herror
    exact Or.inl ⟨herror, values, hsucceed⟩
  · rw [hrun] at herror
    exact Or.inr ⟨k, values, e, herror, hfails⟩

/-- A token fails only in the statement at which the run fails. -/
theorem FailingToken.exists_failsAt (h : FailingToken env source statements k tok e) :
    ∃ values e', Tree.FailsAt env statements k values e' := by
  obtain ⟨t, part, i, values, ht, hsucceed, hpart, hfails, -⟩ := h
  have hstatement := isStatement_of_parseSource hparse t (List.mem_of_getElem? ht)
  obtain ⟨body, hbody⟩ := hstatement.exists_body
  have hfirst := Tree.firstFailure_evaluate
    (env.extend (Tree.bindings (statements.take k) values)) hstatement hbody
  cases hvalue : evaluate (env.extend (Tree.bindings (statements.take k) values)) body with
  | ok value =>
      rw [hvalue] at hfirst
      exact absurd hfails (hfirst part i e hpart)
  | error e' => exact ⟨values, e', hsucceed, t, body, ht, hbody, hvalue⟩

theorem FailingToken.wording (h : FailingToken env source statements k tok e) :
    tok ∈ (tokenize source).tokens ∧
    ((∃ id, tok.kind = .name ∧ tok.value = .text id ∧
      e.diagnostic = ⟨"Undefined variable: " ++ id, tok.pos⟩) ∨
    ∃ value, tok.kind = .bang ∧ e.problem = .noFactorial value ∧
      e.diagnostic = ⟨"Factorial is only defined for non-negative whole numbers, got " ++
        Number.plainText value, tok.pos⟩) := by
  obtain ⟨t, part, i, values, ht, -, hpart, hfails, htok⟩ := h
  obtain ⟨tok', hmem, htok', hmark⟩ := exists_tokenAt hparse ht hpart
  rw [htok] at htok'
  cases htok'
  refine ⟨hmem, ?_⟩
  cases hfails with
  | @read pos id _ =>
      obtain ⟨hkind, hvalue, rfl⟩ := Token.eq_of_mark_name (Option.some.inj hmark).symm
      exact Or.inl ⟨id, hkind, hvalue, rfl⟩
  | @bang pos operand value _ _ =>
      obtain ⟨hkind, rfl⟩ := Token.eq_of_mark_bang (Option.some.inj hmark).symm
      exact Or.inr ⟨value, hkind, rfl, rfl⟩

/-- A run that fails does so at the first failing token of its statement. -/
theorem exists_first_failingToken (h : Tree.FailsAt env statements k values e) :
    ∃ tok, FailingToken env source statements k tok e ∧
      ∀ k' tok' e', FailingToken env source statements k' tok' e' →
        k' = k ∧ (tok' = tok ∨ tok.Precedes tok') := by
  obtain ⟨hsucceed, t, body, ht, hbody, hvalue⟩ := h
  have hstatement := isStatement_of_parseSource hparse t (List.mem_of_getElem? ht)
  have hfirst := Tree.firstFailure_evaluate
    (env.extend (Tree.bindings (statements.take k) values)) hstatement hbody
  rw [hvalue] at hfirst
  obtain ⟨part, i, hpart, hfails, hleast⟩ := hfirst
  obtain ⟨tok, -, htok, -⟩ := exists_tokenAt hparse ht hpart
  refine ⟨tok, ⟨t, part, i, values, ht, hsucceed, hpart, hfails, htok⟩, ?_⟩
  intro k' tok' e' hfailing'
  obtain ⟨values', e'', hfailsAt'⟩ := hfailing'.exists_failsAt hparse
  obtain ⟨rfl, -, -⟩ :=
    Tree.FailsAt.unique ⟨hsucceed, t, body, ht, hbody, hvalue⟩ hfailsAt'
  obtain ⟨t', part', i', values'', ht', hsucceed', hpart', hfails', htok'⟩ := hfailing'
  obtain rfl := hsucceed.unique hsucceed'
  rw [ht] at ht'
  cases ht'
  refine ⟨rfl, ?_⟩
  rcases (hleast part' i' e' hpart' hfails').eq_or_lt with rfl | hlt
  · rw [htok] at htok'
    exact Or.inl (Option.some.inj htok').symm
  · exact Or.inr (precedes_of_lt htok htok' (Nat.add_lt_add_left hlt _))

theorem FailingToken.unboundRead (h : FailingToken env source statements k tok e)
    (hbang : ∀ tok ∈ (tokenize source).tokens, tok.kind ≠ .bang) :
    ∃ id, e = ⟨.undefinedVariable id, tok.pos⟩ ∧ UnboundRead env source statements tok id := by
  obtain ⟨t, part, i, values, ht, hsucceed, hpart, hfails, htok⟩ := h
  obtain ⟨tok', hmem, htok', hmark⟩ := exists_tokenAt hparse ht hpart
  rw [htok] at htok'
  cases htok'
  cases hfails with
  | @read pos id hget =>
      obtain ⟨-, -, rfl⟩ := Token.eq_of_mark_name (Option.some.inj hmark).symm
      exact ⟨id, rfl, t, k, i, ht, hpart, htok, (hsucceed.get?_eq_none_iff id).mp hget⟩
  | bang pos _ _ =>
      exact absurd (Token.eq_of_mark_bang (Option.some.inj hmark).symm).1 (hbang tok hmem)

omit hparse in
theorem failingToken_of_read {t : Tree} {i : Nat} {id : String} (ht : statements[k]? = some t)
    (hpart : (Tree.name tok.pos id).Occurs i t) (htok : tokenAt? source statements k i = some tok)
    (hget : env.get? id = none) (htarget : ∀ u ∈ statements.take k, u.target? ≠ some id)
    (hsucceed : Tree.Succeed env (statements.take k) values) :
    FailingToken env source statements k tok ⟨.undefinedVariable id, tok.pos⟩ :=
  ⟨t, _, i, values, ht, hsucceed, hpart,
    .read _ ((hsucceed.get?_eq_none_iff id).mpr ⟨hget, htarget⟩), htok⟩

omit hparse in
theorem precedes_unboundRead (h : Tree.FailsAt env statements k values e)
    (hfailing : FailingToken env source statements k tok e)
    (hfirst : ∀ k' tok' e', FailingToken env source statements k' tok' e' →
      k' = k ∧ (tok' = tok ∨ tok.Precedes tok'))
    {tok' : Token} {id : String} (hread : UnboundRead env source statements tok' id) :
    tok' = tok ∨ tok.Precedes tok' := by
  obtain ⟨t', k', i', ht', hpart', htok', hget, htarget⟩ := hread
  rcases Nat.lt_or_ge k k' with hlt | hle
  -- The statement of the read never starts, but all its tokens come later.
  · obtain ⟨t, part, i, -, ht, -, hpart, -, htok⟩ := hfailing
    have hbefore := tokensBefore_add_lt ht hpart.lt hlt
    exact Or.inr (precedes_of_lt htok htok' (Nat.lt_add_right i' hbefore))
  -- The statements before it have succeeded, so that the read is a failing token itself.
  · have hsucceed := h.succeed.take k'
    rw [List.take_take, Nat.min_eq_left hle] at hsucceed
    exact (hfirst _ _ _ (failingToken_of_read ht' hpart' htok' hget htarget hsucceed)).2

end Programs

/-- Errors are reported in the order of the text. The error of a run is that of a token which fails,
a read or a `!`; it has the position of this token and says what is wrong there. No statement before
the one of the token has a failing token, and in this statement it comes before all others that
fail. If no token fails, the run succeeds. Without factorials a run fails if and only if some read
sees no value, neither from the start nor from a statement before, and it reports the first read of
this kind. -/
theorem errors_in_source_order (source : String) (statements : List Tree)
    (hparse : (parseSource source).1 = .ok statements) (env : Environment) :
    (∀ error, (run env source).error? = some error →
      ∃ e k tok, error = .eval e ∧ tok ∈ (tokenize source).tokens ∧
        FailingToken env source statements k tok e ∧
        ((∃ id, tok.kind = .name ∧ tok.value = .text id ∧
          e.diagnostic = ⟨"Undefined variable: " ++ id, tok.pos⟩) ∨
        ∃ value, tok.kind = .bang ∧ e.problem = .noFactorial value ∧
          e.diagnostic = ⟨"Factorial is only defined for non-negative whole numbers, got " ++
            Number.plainText value, tok.pos⟩) ∧
        ∀ k' tok' e', FailingToken env source statements k' tok' e' →
          k ≤ k' ∧ (k' = k → tok' = tok ∨ tok.Precedes tok')) ∧
    ((run env source).error? = none ↔
      ∀ k tok e, ¬ FailingToken env source statements k tok e) ∧
    ((∀ tok ∈ (tokenize source).tokens, tok.kind ≠ .bang) →
      ((run env source).error? ≠ none ↔ ∃ tok id, UnboundRead env source statements tok id) ∧
      ∀ error, (run env source).error? = some error →
        ∃ tok id, UnboundRead env source statements tok id ∧
          error = .eval ⟨.undefinedVariable id, tok.pos⟩ ∧
          ∀ tok' id', UnboundRead env source statements tok' id' →
            tok' = tok ∨ tok.Precedes tok') := by
  rcases run_error_cases hparse env with ⟨herror, values, hsucceed⟩ | ⟨k, values, e, herror, hfails⟩
  · have hnone : ∀ k tok e, ¬ FailingToken env source statements k tok e := by
      intro k tok e hfailing
      obtain ⟨values', e', hfails⟩ := hfailing.exists_failsAt hparse
      exact hsucceed.not_failsAt hfails
    rw [herror]
    refine ⟨by simp, iff_of_true rfl hnone, fun _ => ⟨iff_of_false (by simp) ?_, by simp⟩⟩
    rintro ⟨tok, id, t, k, i, ht, hpart, htok, hget, htarget⟩
    exact hnone k tok _ (failingToken_of_read ht hpart htok hget htarget (hsucceed.take k))
  · obtain ⟨tok, hfailing, hfirst⟩ := exists_first_failingToken hparse hfails
    rw [herror]
    refine ⟨fun error herror' => ?_, iff_of_false (by simp) fun h => h k tok e hfailing,
      fun hbang => ?_⟩
    · cases herror'
      obtain ⟨hmem, htext⟩ := hfailing.wording hparse
      refine ⟨e, k, tok, rfl, hmem, hfailing, htext, fun k' tok' e' hfailing' => ?_⟩
      obtain ⟨rfl, horder⟩ := hfirst k' tok' e' hfailing'
      exact ⟨Nat.le_refl _, fun _ => horder⟩
    · obtain ⟨id, rfl, hread⟩ := hfailing.unboundRead hparse hbang
      refine ⟨iff_of_true (by simp) ⟨tok, id, hread⟩, fun error herror' => ?_⟩
      cases herror'
      exact ⟨tok, id, hread, rfl, fun tok' id' => precedes_unboundRead hfails hfailing hfirst⟩

/-- Two tokens fail, a `!` and a read after it. -/
theorem errors_in_source_order_half :
    let source := "print a! + b"
    let env : Environment := ⟨[("a", 0.5)]⟩
    ∃ statements e k tok, (parseSource source).1 = .ok statements ∧
      (run env source).error? = some (.eval e) ∧
      FailingToken env source statements k tok e ∧
      e.diagnostic =
        ⟨"Factorial is only defined for non-negative whole numbers, got 0.5", ⟨1, 8⟩⟩ := by
  intro source env
  let sum : Tree :=
    .binary ⟨1, 10⟩ .plus (.factorial ⟨1, 8⟩ (.name ⟨1, 7⟩ "a")) (.name ⟨1, 12⟩ "b")
  have hsum : sum.Tiered :=
    .binary _ (.factorial _ (.name _ _) (by decide)) (.name _ _) (by decide) (by decide)
  have hparse : (parseSource source).1 = .ok [.print ⟨1, 1⟩ sum] := by
    refine (parseSource_eq_ok_iff (by decide +kernel)).mpr ⟨by decide +kernel, ?_, ?_⟩
    · simpa [Tree.IsStatement] using hsum
    · exact .last (by decide +kernel : (tokenize source).tokens.map Token.mark = _)
  have hrun : (run env source).error? = some (.eval ⟨.noFactorial 0.5, ⟨1, 8⟩⟩) := by
    decide +kernel
  obtain ⟨e, k, tok, herror, -, hfailing, -, -⟩ :=
    (errors_in_source_order source _ hparse env).1 _ hrun
  cases herror
  exact ⟨_, _, k, tok, hparse, hrun, hfailing, by decide +kernel⟩

end Reckoner
