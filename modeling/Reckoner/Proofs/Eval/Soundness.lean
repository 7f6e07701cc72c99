import Mathlib.Logic.Relation
import Reckoner.Proofs.Eval.ErrorOrder
import Reckoner.Proofs.Parse.Diagnosis

/-!
# Parsed programs do not go wrong

Trees can be built that have no value, and the machine can be given tasks for which values are
missing. Neither happens to a program that was parsed. Its trees are of the kinds in two short
tables, with the operands and the value that the table says, and its names are words other than the
keyword. On such trees the machine keeps the invariant that its pending tasks, done one after the
other, never lack an operand and leave one value. What is left to fail are reads of variables and
factorials.
-/

namespace Reckoner

/-- Whether a text is a word other than the keyword. -/
def IsIdentifier (id : String) : Prop :=
  id ≠ "print" ∧ ∃ c cs, id = String.ofList (c :: cs) ∧ startsWord c = true ∧
    ∀ d ∈ cs, isWordAhead (some d) = true

theorem Lexeme.isIdentifier {l rest : List Char} {id : String}
    (h : Lexeme l rest .name (.text id)) : IsIdentifier id := by
  generalize hkind : Token.Kind.name = kind at h
  generalize hvalue : Value.text id = value at h
  cases h with
  | punctuation _ hc =>
      subst hkind
      unfold punctuation? at hc
      split at hc <;> cases hc
  | number => cases hkind
  | @word c cs _ hc hcs _ =>
      cases hvalue
      split at hkind
      · cases hkind
      · next hne => exact ⟨hne, c, cs, rfl, hc, hcs⟩

namespace Tree

/-! ## Well-formed trees -/

inductive Load
  | nothing
  | number
  | name

def Load.Admits : Load → Value → Prop
  | .nothing, value => value = .absent
  | .number, value => ∃ x, value = .number x
  | .name, value => ∃ id, value = .text id ∧ IsIdentifier id

/-- The kinds of expressions, with what they carry and the number of their operands. -/
def expressionKinds : List (String × Load × Nat) :=
  [("number", .number, 0), ("variable", .name, 0), ("plus", .nothing, 2), ("minus", .nothing, 2),
    ("asterisk", .nothing, 2), ("slash", .nothing, 2), ("power", .nothing, 2),
    ("factorial", .nothing, 1), ("group", .nothing, 1)]

/-- The kinds of statements, each with one expression. -/
def statementKinds : List (String × Load × Nat) :=
  [("expr_stmt", .nothing, 1), ("assign", .name, 1), ("print", .nothing, 1)]

/-- Whether the root of a tree is one of the kinds, with the load and the number of children that
they have. -/
def Fits (kinds : List (String × Load × Nat)) (t : Tree) : Prop :=
  ∃ load, (t.kind, load, t.children.length) ∈ kinds ∧ load.Admits t.value

/-- Expressions in which every tree is of a kind with a rule and fits the table. -/
inductive WellFormed : Tree → Prop
  | intro {t : Tree} : t.isExpression = true → t.Fits expressionKinds →
      (∀ child ∈ t.children, child.WellFormed) → t.WellFormed

/-- Whether a tree is a statement that fits the table, with a well-formed expression as its only
child. -/
def WellFormedStatement (t : Tree) : Prop :=
  t.Fits statementKinds ∧
    ∃ body, t.body? = some body ∧ t.children = [body] ∧ body.WellFormed

def Named (marks : List Mark) : Prop :=
  ∀ id pos, ⟨.name, some (.text id), some pos⟩ ∈ marks → IsIdentifier id

theorem Named.subset {ms ns : List Mark} (h : Named ns) (hsub : ∀ m ∈ ms, m ∈ ns) : Named ms :=
  fun id pos hm => h id pos (hsub _ hm)

theorem Tiered.wellFormed {t : Tree} (h : t.Tiered) (hnamed : Named t.marks) : t.WellFormed := by
  induction h with
  | number pos value =>
      exact .intro rfl ⟨.number, by simp [expressionKinds, kind, children], value, rfl⟩
        (by simp [children])
  | name pos id =>
      have hid : IsIdentifier id := hnamed id pos (by simp [marks])
      exact .intro rfl ⟨.name, by simp [expressionKinds, kind, children], id, rfl, hid⟩
        (by simp [children])
  | group pos _ ih =>
      have hinner := ih (hnamed.subset (by simp +contextual [marks]))
      exact .intro rfl ⟨.nothing, by simp [expressionKinds, kind, children], rfl⟩
        (by simpa [children] using hinner)
  | factorial pos _ _ ih =>
      have hoperand := ih (hnamed.subset (by simp +contextual [marks]))
      exact .intro rfl ⟨.nothing, by simp [expressionKinds, kind, children], rfl⟩
        (by simpa [children] using hoperand)
  | @binary pos op _ _ _ _ _ _ ihl ihr =>
      have hleft := ihl (hnamed.subset (by simp +contextual [marks]))
      have hright := ihr (hnamed.subset (by simp +contextual [marks]))
      have hkind : (op.kind, Load.nothing, 2) ∈ expressionKinds := by
        cases op <;> simp [expressionKinds, Operator.kind]
      exact .intro rfl ⟨.nothing, hkind, rfl⟩ (by simpa [children] using ⟨hleft, hright⟩)

theorem IsStatement.wellFormedStatement {t : Tree} (h : t.IsStatement) (hnamed : Named t.marks) :
    t.WellFormedStatement := by
  cases t with
  | bare pos body =>
      have hbody := h.1.wellFormed hnamed
      exact ⟨⟨.nothing, by simp [statementKinds, kind, children], rfl⟩, body, rfl, rfl, hbody⟩
  | assign pos id body =>
      have hid : IsIdentifier id := hnamed id pos (by simp [marks])
      have hbody := Tiered.wellFormed h (hnamed.subset (by simp +contextual [marks]))
      exact ⟨⟨.name, by simp [statementKinds, kind, children], id, rfl, hid⟩, body, rfl, rfl, hbody⟩
  | print pos body =>
      have hbody := Tiered.wellFormed h (hnamed.subset (by simp +contextual [marks]))
      exact ⟨⟨.nothing, by simp [statementKinds, kind, children], rfl⟩, body, rfl, rfl, hbody⟩
  | _ => cases h

end Tree

theorem wellFormed_of_parseSource {source : String} {statements : List Tree}
    (h : (parseSource source).1 = .ok statements) : ∀ t ∈ statements, t.WellFormedStatement := by
  obtain ⟨-, hall, hlayout⟩ := layout_of_parseSource h
  intro t ht
  apply (hall t ht).wellFormedStatement
  intro id pos hmark
  -- The mark is that of a token of the text, and names in a text are words.
  have hmem : ⟨.name, some (.text id), some pos⟩ ∈ statements.flatMap Tree.marks :=
    List.mem_flatMap.mpr ⟨t, ht, hmark⟩
  rw [← hlayout.marks_filter hall, List.mem_map] at hmem
  obtain ⟨tok, htok, hmark'⟩ := hmem
  obtain ⟨hkind, hvalue, -⟩ := Token.eq_of_mark_name hmark'
  obtain ⟨-, l, rest, -, hlexeme, -⟩ :=
    exists_lexeme_of_mem_tokens source tok (List.mem_of_mem_filter htok)
  rw [hkind, hvalue] at hlexeme
  exact hlexeme.isIdentifier

/-! ## Rules -/

/-- Whether an error is one that a program can make: a name without a value, or a factorial of a
number that has none. -/
def EvalError.OfProgram (e : EvalError) : Prop :=
  (∃ id, IsIdentifier id ∧ e.problem = .undefinedVariable id ∧
    e.problem.text = "Undefined variable: " ++ id) ∨
  ∃ x, Number.factorial? x = none ∧ e.problem = .noFactorial x ∧
    e.problem.text =
      "Factorial is only defined for non-negative whole numbers, got " ++ Number.plainText x

/-- Whether a result is a value or an error that a program can make. -/
def IsProper {α : Type} : Except EvalError α → Prop
  | .ok _ => True
  | .error e => e.OfProgram

theorem isProper_factorialAt (pos : Position) (x : Float) : IsProper (factorialAt pos x) := by
  unfold factorialAt
  split
  · trivial
  · next hnone => exact Or.inr ⟨x, hnone, rfl, rfl⟩

/-- The rule of a well-formed tree applies to as many values as it has children. -/
theorem Tree.WellFormed.isProper_rule {t : Tree} (h : t.WellFormed) (env : Environment)
    {operands : List Float} (hlength : operands.length = t.children.length) :
    IsProper (t.rule env operands) := by
  obtain ⟨hexpression, ⟨load, hkind, hload⟩, -⟩ := h
  cases t with
  | number pos value =>
      obtain rfl := List.length_eq_zero_iff.mp hlength
      trivial
  | name pos id =>
      obtain rfl := List.length_eq_zero_iff.mp hlength
      obtain rfl : load = .name := by simpa [expressionKinds, kind, children] using hkind
      obtain ⟨_, ⟨⟩, hid⟩ := hload
      cases hget : env.get? id with
      | some value => simp [rule, hget, IsProper]
      | none =>
          simp only [rule, hget]
          exact Or.inl ⟨id, hid, rfl, rfl⟩
  | binary pos op left right =>
      obtain ⟨a, b, rfl⟩ := List.length_eq_two.mp hlength
      trivial
  | factorial pos operand =>
      obtain ⟨x, rfl⟩ := List.length_eq_one_iff.mp hlength
      exact isProper_factorialAt pos x
  | group pos inner =>
      obtain ⟨x, rfl⟩ := List.length_eq_one_iff.mp hlength
      trivial
  | empty pos => simp [expressionKinds, kind] at hkind
  | _ => cases hexpression

/-! ## The machine -/

def Task.tree : Task → Tree
  | .visit t => t
  | .finish t => t

/-- The machine between two steps. -/
structure Machine where
  pending : List Task
  values : List Float

namespace Machine

def start (t : Tree) : Machine :=
  ⟨[.visit t], []⟩

inductive Step (env : Environment) : Machine → Machine → Prop
  | visit (t : Tree) (pending : List Task) (values : List Float) :
      Step env ⟨.visit t :: pending, values⟩ ⟨t.children.map .visit ++ .finish t :: pending, values⟩
  | finish {t : Tree} {values : List Float} {value : Float} (pending : List Task) :
      t.rule env (values.take t.children.length).reverse = .ok value →
        Step env ⟨.finish t :: pending, values⟩ ⟨pending, value :: values.drop t.children.length⟩

def Reaches (env : Environment) : Machine → Machine → Prop :=
  Relation.ReflTransGen (Step env)

/-- Number of values after the tasks, if none of them lacks an operand. -/
def height : List Task → Nat → Option Nat
  | [], n => some n
  | .visit _ :: pending, n => height pending (n + 1)
  | .finish t :: pending, n =>
    if t.children.length ≤ n then height pending (n - t.children.length + 1) else none

/-- Whether the trees of the pending tasks are well formed, and the tasks leave one value. -/
structure Sound (m : Machine) : Prop where
  wellFormed : ∀ task ∈ m.pending, task.tree.WellFormed
  height_eq : height m.pending m.values.length = some 1

variable {env : Environment} {m n : Machine} {t : Tree}

theorem height_visits (ts : List Tree) (pending : List Task) (n : Nat) :
    height (ts.map .visit ++ pending) n = height pending (n + ts.length) := by
  induction ts generalizing n with
  | nil => rfl
  | cons t ts ih =>
      rw [List.map_cons, List.cons_append, height, ih, List.length_cons, Nat.add_right_comm,
        Nat.add_assoc]

theorem height_finish {pending : List Task} {n k : Nat}
    (h : height (.finish t :: pending) n = some k) :
    t.children.length ≤ n ∧ height pending (n - t.children.length + 1) = some k := by
  rw [height] at h
  split at h
  · next hle => exact ⟨hle, h⟩
  · cases h

theorem sound_start (h : t.WellFormed) : (start t).Sound where
  wellFormed := List.forall_mem_singleton.mpr h
  height_eq := rfl

theorem Sound.step (h : m.Sound) (hstep : Step env m n) : n.Sound := by
  cases hstep with
  | visit t pending values =>
      obtain ⟨ht, hpending⟩ := List.forall_mem_cons.mp h.wellFormed
      constructor
      · obtain ⟨-, -, hchildren⟩ := id ht
        simp only [List.forall_mem_append, List.forall_mem_map, List.forall_mem_cons]
        exact ⟨hchildren, ht, hpending⟩
      · -- The children push what the tree itself takes off again.
        rw [height_visits, height, if_pos (Nat.le_add_left _ _), Nat.add_sub_cancel]
        exact h.height_eq
  | finish pending hrule =>
      constructor
      · exact (List.forall_mem_cons.mp h.wellFormed).2
      · rw [List.length_cons, List.length_drop]
        exact (height_finish h.height_eq).2

theorem Sound.reaches (h : m.Sound) (hreach : Reaches env m n) : n.Sound := by
  induction hreach with
  | refl => exact h
  | tail _ hstep ih => exact ih.step hstep

theorem Step.runTasks_eq (h : Step env m n) :
    runTasks env m.pending m.values = runTasks env n.pending n.values := by
  cases h with
  | visit t pending values => rw [runTasks]
  | finish pending hrule => rw [runTasks, hrule]

theorem Reaches.runTasks_eq (h : Reaches env m n) :
    runTasks env m.pending m.values = runTasks env n.pending n.values := by
  induction h with
  | refl => rfl
  | tail _ hstep ih => exact ih.trans hstep.runTasks_eq

/-- Whether the machine can go on, or has ended as it should: with one value, or at a tree whose
operands are there, in an error that a program can make. -/
structure Ready (env : Environment) (m : Machine) : Prop where
  ended : m.pending = [] → ∃ value, m.values = [value]
  finishing {t : Tree} {pending : List Task} : m.pending = .finish t :: pending →
    t.WellFormed ∧ (m.values.take t.children.length).length = t.children.length ∧
      IsProper (t.rule env (m.values.take t.children.length).reverse)
  goes_on : (∃ n, Step env m n) ∨ m.pending = [] ∨
    ∃ e, e.OfProgram ∧ runTasks env m.pending m.values = .error e

theorem Sound.ready (h : m.Sound) (env : Environment) : m.Ready env := by
  have hfinishing {t : Tree} {pending : List Task} (hpending : m.pending = .finish t :: pending) :
      t.WellFormed ∧ (m.values.take t.children.length).length = t.children.length ∧
        IsProper (t.rule env (m.values.take t.children.length).reverse) := by
    have ht : t.WellFormed := h.wellFormed (.finish t) (hpending ▸ List.mem_cons_self)
    have hheight := h.height_eq
    rw [hpending] at hheight
    have hlength := List.length_take_of_le (height_finish hheight).1
    exact ⟨ht, hlength, ht.isProper_rule env (by rw [List.length_reverse, hlength])⟩
  refine ⟨fun hnil => ?_, hfinishing, ?_⟩
  · have hheight := h.height_eq
    rw [hnil] at hheight
    exact List.length_eq_one_iff.mp (Option.some.inj hheight)
  · obtain ⟨pending, values⟩ := m
    rcases pending with _ | ⟨⟨t⟩ | ⟨t⟩, pending⟩
    · exact Or.inr (Or.inl rfl)
    · exact Or.inl ⟨_, .visit t pending values⟩
    · obtain ⟨-, -, hproper⟩ := hfinishing rfl
      cases hrule : t.rule env (values.take t.children.length).reverse with
      | ok value => exact Or.inl ⟨_, .finish pending hrule⟩
      | error e =>
          rw [hrule] at hproper
          exact Or.inr (Or.inr ⟨e, hproper, by rw [runTasks, hrule]⟩)

/-- The tasks of a sound machine leave one value or end in an error that a program can make. -/
theorem Sound.runTasks_cases {pending : List Task} {values : List Float}
    (h : Sound ⟨pending, values⟩) (env : Environment) :
    (∃ value, runTasks env pending values = .ok [value]) ∨
      ∃ e, e.OfProgram ∧ runTasks env pending values = .error e := by
  fun_induction runTasks env pending values with
  | case1 values =>
      obtain ⟨value, hvalues⟩ := (h.ready env).ended rfl
      exact Or.inl ⟨value, congrArg Except.ok hvalues⟩
  | case2 t pending values ih =>
      have hstep : Step env ⟨.visit t :: pending, values⟩ _ := .visit t pending values
      exact ih (h.step hstep)
  | case3 t pending values arity value hrule ih => exact ih (h.step (.finish pending hrule))
  | case4 t pending values arity e hrule =>
      obtain ⟨-, -, hproper⟩ := (h.ready env).finishing rfl
      rw [hrule] at hproper
      exact Or.inr ⟨e, hproper, rfl⟩

end Machine

theorem Tree.WellFormed.isProper_evaluate {t : Tree} (h : t.WellFormed) (env : Environment) :
    IsProper (evaluate env t) := by
  rcases (Machine.sound_start h).runTasks_cases env with ⟨value, hvalue⟩ | ⟨e, he, herror⟩
  · rw [evaluate, hvalue]
    trivial
  · rw [evaluate, herror]
    exact he

theorem interpret_error_ofProgram {env : Environment} {statements : List Tree}
    (hall : ∀ t ∈ statements, t.WellFormedStatement) {e : EvalError}
    (h : (interpret env statements).error? = some e) : e.OfProgram := by
  induction statements generalizing env with
  | nil => cases h
  | cons t ts ih =>
      obtain ⟨⟨-, body, hbody, -, hwell⟩, hrest⟩ := List.forall_mem_cons.mp hall
      have hproper := hwell.isProper_evaluate env
      rw [interpret, Tree.execute_eq hbody] at h
      cases hvalue : evaluate env body with
      | ok value =>
          rw [hvalue] at h
          exact ih hrest h
      | error e' =>
          rw [hvalue] at h hproper
          cases h
          exact hproper

/-! ## Texts -/

/-- Whether a failure is one of the scanner about a piece of text, or one of the parser about a
token. -/
def ParseFailure.OfText (f : ParseFailure) : Prop :=
  (∃ spelling pos, f = .scan (.malformedNumber spelling pos)) ∨
    (∃ character pos, f = .scan (.unexpectedCharacter character pos)) ∨ ∃ e, f = .parse e

theorem ParseFailure.ofText_of_diagnostic {f : ParseFailure} {d : Diagnostic}
    (h : f.diagnostic? = some d) : f.OfText := by
  cases f with
  | parse e => exact Or.inr (Or.inr ⟨e, rfl⟩)
  | scan e =>
      cases e with
      | malformedNumber spelling pos => exact Or.inl ⟨spelling, pos, rfl⟩
      | unexpectedCharacter character pos => exact Or.inr (Or.inl ⟨character, pos, rfl⟩)
      | _ => cases h
  | _ => cases h

/-- Programs do not go wrong. A text fails to parse only by an error of the scanner or the parser
about it. If it parses, its statements are well formed, and whatever the environment, a run fails at
most by reading a variable without a value or by a factorial that does not exist. The machine that
evaluates an expression of it, with whatever values for the variables, never lacks an operand, and
never ends with any number of values but one. -/
theorem parsed_programs_sound (source : String) :
    (∀ e, (tokenize source).error? = some e → (ParseFailure.scan e).OfText) ∧
    match (parseSource source).1 with
    | .error f => f.OfText
    | .ok statements =>
      (∀ t ∈ statements, t.WellFormedStatement) ∧
      (∀ env e, (run env source).error? = some e → ∃ e', e = .eval e' ∧ e'.OfProgram) ∧
      ∀ t ∈ statements, ∀ body ∈ t.children, ∀ env m, Machine.Reaches env (.start body) m →
        m.Ready env ∧ runTasks env m.pending m.values = runTasks env [.visit body] [] := by
  constructor
  · intro e he
    obtain ⟨before, rest, -, hfault⟩ := exists_fault_of_error source he
    obtain ⟨wording, hwording⟩ := hfault.exists_diagnostic
    exact ParseFailure.ofText_of_diagnostic hwording
  · match hparse : (parseSource source).1 with
    | .error f =>
        obtain ⟨d, hd⟩ := exists_diagnostic_of_parseSource hparse
        exact ParseFailure.ofText_of_diagnostic hd
    | .ok statements =>
        have hwell := wellFormed_of_parseSource hparse
        refine ⟨hwell, fun env e he => ?_, fun t ht body hbody env m hreach => ?_⟩
        · rw [(run_of_ok hparse env).1, Option.map_eq_some_iff] at he
          obtain ⟨e', he', rfl⟩ := he
          exact ⟨e', rfl, interpret_error_ofProgram hwell he'⟩
        · obtain ⟨-, body', -, hchildren, hbody'⟩ := hwell t ht
          rw [hchildren, List.mem_singleton] at hbody
          subst hbody
          have hsound := (Machine.sound_start hbody').reaches hreach
          exact ⟨hsound.ready env, hreach.runTasks_eq.symm⟩

end Reckoner
