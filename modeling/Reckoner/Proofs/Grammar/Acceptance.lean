import Reckoner.Proofs.Grammar.Automaton

/-!
# The automaton accepts the grammar

What the rules derive takes the automaton from state to state: an expression from where an operand
has to follow to where it has ended, with the same parentheses open. These languages are closed
under the rules. Conversely each state has a language of the ways to go on, written with the
derivable ones, and every step of the automaton leads into it.
-/

namespace Reckoner.Grammar

open Computability
open Token (Kind)

/-! ## From derivations to runs -/

/-- What takes the automaton across an operand. -/
def crossing : Language Kind :=
  {w | ∀ ts : List Token, ts.map Token.kind = w → ∀ after opened,
    State.run (.operand after opened) ts = some (.operator opened)}

/-- What takes the automaton across a statement. -/
def stating : Language Kind :=
  {w | ∀ ts : List Token, ts.map Token.kind = w →
    ∃ s, State.run .fresh ts = some s ∧ s.Ended}

/-- What is accepted before the end of the input. -/
def accepted : Language Kind :=
  {w | ∀ (ts : List Token) (n : Nat), ts.map Token.kind ++ List.replicate n .endOfInput = w →
    (∀ t ∈ ts, t.kind ≠ .endOfInput) → ∃ s, State.run .fresh ts = some s ∧ s.complete = true}

theorem map_kind_eq_singleton {ts : List Token} {kind : Kind}
    (h : ts.map Token.kind = [kind]) : ∃ t, ts = [t] ∧ t.kind = kind := by
  obtain ⟨t, rest, rfl, ht, hrest⟩ := List.map_eq_cons_iff.mp h
  rw [List.map_eq_nil_iff.mp hrest]
  exact ⟨t, rfl, ht⟩

theorem single_le_crossing {kind : Kind}
    (h : ∀ (t : Token) (after : Token) (opened : List Position), t.kind = kind →
      State.step (.operand after opened) t = some (.operator opened)) :
    single kind ≤ crossing := by
  intro w hw ts hts after opened
  rw [mem_single.mp hw] at hts
  obtain ⟨t, rfl, ht⟩ := map_kind_eq_singleton hts
  simp [h t after opened ht]

theorem crossing_mul_bang_le : crossing * single .bang ≤ crossing := by
  intro w hw ts hts after opened
  obtain ⟨u, hu, v, hv, rfl⟩ := Language.mem_mul.mp hw
  obtain ⟨xs, ys, rfl, hxs, hys⟩ := List.map_eq_append_iff.mp hts
  rw [mem_single.mp hv] at hys
  obtain ⟨t, rfl, ht⟩ := map_kind_eq_singleton hys
  apply State.run_trans (hu xs hxs after opened)
  simp [State.step_bang ht]

theorem crossing_mul_operator_le {operators : Language Kind}
    (h : ∀ w ∈ operators, ∃ kind op, w = [kind] ∧ operator? kind = some op) :
    crossing * (operators * crossing) ≤ crossing := by
  intro w hw ts hts after opened
  obtain ⟨u, hu, v, hv, rfl⟩ := Language.mem_mul.mp hw
  obtain ⟨o, ho, r, hr, rfl⟩ := Language.mem_mul.mp hv
  obtain ⟨kind, op, rfl, hop⟩ := h o ho
  obtain ⟨xs, ys, rfl, hxs, hys⟩ := List.map_eq_append_iff.mp hts
  obtain ⟨t, zs, rfl, ht, hzs⟩ := List.map_eq_cons_iff.mp hys
  apply State.run_trans (hu xs hxs after opened)
  rw [State.run_cons, State.step_operator (ht ▸ hop), Option.bind_some]
  exact hr zs hzs t opened

theorem group_le_crossing :
    single .openParen * (crossing * single .closeParen) ≤ crossing := by
  intro w hw ts hts after opened
  obtain ⟨u, hu, v, hv, rfl⟩ := Language.mem_mul.mp hw
  obtain ⟨inner, hinner, c, hc, rfl⟩ := Language.mem_mul.mp hv
  rw [mem_single.mp hu, mem_single.mp hc, List.singleton_append] at hts
  obtain ⟨opening, rest, rfl, hopen, hrest⟩ := List.map_eq_cons_iff.mp hts
  obtain ⟨xs, ys, rfl, hxs, hys⟩ := List.map_eq_append_iff.mp hrest
  obtain ⟨closing, rfl, hclose⟩ := map_kind_eq_singleton hys
  have hstep : State.step (.operand after opened) opening =
      some (.operand opening (opening.pos :: opened)) := by
    simp [State.step, State.startOperand, hopen]
  rw [State.run_cons, hstep, Option.bind_some]
  apply State.run_trans (hinner xs hxs opening (opening.pos :: opened))
  simp [State.step_close hclose]

theorem crossing_le_stating : crossing ≤ stating := by
  intro w hw ts hts
  -- Any token will do as the one that the expression follows.
  have hrun := hw ts hts (Token.ofValue .print .absent .unknown) []
  cases ts with
  | nil => simp at hrun
  | cons t ts =>
      rcases State.run_fresh_of_run_operand hrun with h | ⟨-, -, h⟩
      · exact ⟨_, h, Or.inl rfl⟩
      · exact ⟨_, h, Or.inr rfl⟩

theorem print_le_stating : single .print * crossing ≤ stating := by
  intro w hw ts hts
  obtain ⟨u, hu, v, hv, rfl⟩ := Language.mem_mul.mp hw
  rw [mem_single.mp hu] at hts
  obtain ⟨t, rest, rfl, ht, hrest⟩ := List.map_eq_cons_iff.mp hts
  refine ⟨.operator [], ?_, Or.inl rfl⟩
  have hstep : State.step .fresh t = some (.operand t []) := by simp [State.step, ht]
  rw [State.run_cons, hstep, Option.bind_some]
  exact hv rest hrest t []

theorem assignment_le_stating :
    single .name * (single .assign * crossing) ≤ stating := by
  intro w hw ts hts
  obtain ⟨u, hu, v, hv, rfl⟩ := Language.mem_mul.mp hw
  obtain ⟨a, ha, e, he, rfl⟩ := Language.mem_mul.mp hv
  rw [mem_single.mp hu, mem_single.mp ha] at hts
  obtain ⟨target, rest, rfl, htarget, hrest⟩ := List.map_eq_cons_iff.mp hts
  obtain ⟨sign, body, rfl, hsign, hbody⟩ := List.map_eq_cons_iff.mp hrest
  refine ⟨.operator [], ?_, Or.inl rfl⟩
  have hfirst : State.step .fresh target = some .named := by simp [State.step, htarget]
  have hsecond : State.step .named sign = some (.operand sign []) := by simp [State.step, hsign]
  rw [State.run_cons, hfirst, Option.bind_some, State.run_cons, hsecond, Option.bind_some]
  exact he body hbody sign []

theorem not_endOfInput_of_mem_stating {w : List Kind} (h : w ∈ stating) :
    .endOfInput ∉ w := by
  intro hmem
  obtain ⟨s, hs, -⟩ := h (w.map fun kind => Token.ofValue kind .absent .unknown)
    (by simp [Function.comp_def, Token.ofValue])
  exact State.not_endOfInput_of_run hs _ (List.mem_map_of_mem hmem) rfl

theorem endOfInput_le_accepted : single .endOfInput ≤ accepted := by
  intro w hw ts n hts hend
  rw [mem_single.mp hw] at hts
  cases ts with
  | nil => exact ⟨.fresh, rfl, rfl⟩
  | cons t ts =>
      have ht : t.kind = .endOfInput := by simpa using congrArg List.head? hts
      exact (hend t List.mem_cons_self ht).elim

theorem terminator_mul_accepted_le : single .terminator * accepted ≤ accepted := by
  intro w hw ts n hts hend
  obtain ⟨u, hu, v, hv, rfl⟩ := Language.mem_mul.mp hw
  rw [mem_single.mp hu] at hts
  cases ts with
  | nil =>
      have hmem : Kind.terminator ∈ List.replicate n Kind.endOfInput := by
        simp only [List.map_nil, List.nil_append] at hts
        simp [hts]
      simp [List.mem_replicate] at hmem
  | cons t ts =>
      simp only [List.map_cons, List.cons_append, List.nil_append, List.cons.injEq] at hts
      obtain ⟨s, hs, hcomplete⟩ :=
        hv ts n hts.2 fun t' ht' => hend t' (List.mem_cons_of_mem t ht')
      have hstep : State.step .fresh t = some .fresh := by simp [State.step, hts.1]
      exact ⟨s, by simpa [hstep] using hs, hcomplete⟩

/-- A statement and what ends it may stand before what is accepted. Where the statement is ended
by the end of the input, nothing is left. -/
theorem stating_mul_accepted_le :
    stating * ((single .terminator + single .endOfInput) * accepted) ≤ accepted := by
  intro w hw ts n hts hend
  obtain ⟨u, hu, v, hv, rfl⟩ := Language.mem_mul.mp hw
  obtain ⟨e, he, rest, hrest, rfl⟩ := Language.mem_mul.mp hv
  have hu' := not_endOfInput_of_mem_stating hu
  -- The statement is a part of the tokens, because the end of the input is not in it.
  obtain ⟨mid, hmid, htail⟩ : ∃ mid, ts.map Token.kind = u ++ mid ∧
      e ++ rest = mid ++ List.replicate n .endOfInput := by
    rcases List.append_eq_append_iff.mp hts with ⟨c, hc, hc'⟩ | ⟨mid, hmid, htail⟩
    · cases c with
      | nil => exact ⟨[], by simpa using hc.symm, by simpa using hc'.symm⟩
      | cons kind c =>
          have hkind : kind ∈ List.replicate n Kind.endOfInput := by simp [hc']
          rw [List.eq_of_mem_replicate hkind] at hc
          simp [hc] at hu'
    · exact ⟨mid, hmid, htail⟩
  obtain ⟨xs, ys, rfl, hxs, hys⟩ := List.map_eq_append_iff.mp hmid
  obtain ⟨s, hs, hended⟩ := hu xs hxs
  cases ys with
  | nil => exact ⟨s, by simpa using hs, hended.complete⟩
  | cons t ys =>
      have ht : t.kind ≠ .endOfInput := hend t (by simp)
      rw [← hys] at htail
      rcases (Language.mem_add ..).mp he with he | he
      · rw [mem_single.mp he] at htail
        simp only [List.map_cons, List.cons_append, List.nil_append, List.cons.injEq] at htail
        obtain ⟨s', hs', hdone⟩ :=
          hrest ys n htail.2.symm fun t' ht' => hend t' (by simp [ht'])
        refine ⟨s', State.run_trans hs ?_, hdone⟩
        simpa [hended.step htail.1.symm] using hs'
      · rw [mem_single.mp he] at htail
        simp only [List.map_cons, List.cons_append, List.nil_append, List.cons.injEq] at htail
        exact (ht htail.1.symm).elim

/-- The languages that the automaton gives to the rules. -/
def recognized : Nonterminal → Language Kind
  | .program => accepted
  | .statement => stating
  | _ => crossing

theorem joined_language_le {operand : Nonterminal} {operators : Form}
    (hoperand : recognized operand = crossing)
    (h : ∀ w ∈ operators.language recognized, ∃ kind op, w = [kind] ∧ operator? kind = some op) :
    (Form.joined operand operators).language recognized ≤ crossing := by
  simp only [Form.joined, Form.language, hoperand]
  exact mul_kstar_le_self (crossing_mul_operator_le h)

theorem closed_recognized : Closed recognized := by
  intro name
  cases name with
  | program =>
      apply kstar_mul_le (kstar_mul_le endOfInput_le_accepted terminator_mul_accepted_le)
      simp only [Form.language, recognized, mul_assoc]
      exact kstar_mul_le stating_mul_accepted_le terminator_mul_accepted_le
  | statement => exact add_le print_le_stating (add_le assignment_le_stating crossing_le_stating)
  | expression =>
      refine joined_language_le rfl fun w hw => ?_
      rcases (Language.mem_add ..).mp hw with h | h
      · exact ⟨.plus, .plus, mem_single.mp h, rfl⟩
      · exact ⟨.minus, .minus, mem_single.mp h, rfl⟩
  | term =>
      refine joined_language_le rfl fun w hw => ?_
      rcases (Language.mem_add ..).mp hw with h | h
      · exact ⟨.star, .times, mem_single.mp h, rfl⟩
      · exact ⟨.slash, .over, mem_single.mp h, rfl⟩
  | factor => exact joined_language_le rfl fun w hw => ⟨.caret, .power, mem_single.mp hw, rfl⟩
  | suffixed => exact mul_kstar_le_self crossing_mul_bang_le
  | primary =>
      refine add_le (single_le_crossing ?_) (add_le (single_le_crossing ?_) group_le_crossing)
      · intro t after opened ht
        simp [State.step, State.startOperand, ht]
      · intro t after opened ht
        simp [State.step, State.startOperand, ht]

theorem exists_run_of_grammatical {ts : List Token} (h : Grammatical ts) :
    ∃ s, State.run .fresh ts = some s ∧ s.complete = true := by
  obtain ⟨hend, n, hderives⟩ := h
  exact hderives.mem_language closed_recognized ts n rfl hend

/-! ## From runs to derivations -/

def bangs : Language Kind := (single .bang)∗

def powers : Language Kind := (single .caret * derived .suffixed)∗

def products : Language Kind := ((single .star + single .slash) * derived .factor)∗

def sums : Language Kind := ((single .plus + single .minus) * derived .term)∗

/-- What may follow a primary in an expression, tier by tier. -/
def tail : Language Kind := bangs * (powers * (products * sums))

/-- What goes on to a whole program at the start of a statement. -/
def beginning : Language Kind :=
  {w | ∃ n, w ++ List.replicate n .endOfInput ∈ derived .program}

/-- What goes on to a whole program at the end of a statement. -/
def ending : Language Kind := 1 + single .terminator * beginning

/-- What goes on to a whole program at the end of an expression inside the open parentheses. -/
def closing : List Position → Language Kind
  | [] => ending
  | _ :: outer => single .closeParen * (tail * closing outer)

/-- What goes on to a whole program. -/
def State.future : State → Language Kind
  | .fresh => beginning
  | .named => single .assign * (derived .primary * (tail * ending)) + tail * ending
  | .operand _ opened => derived .primary * (tail * closing opened)
  | .operator opened => tail * closing opened

theorem primary_mul_tail_le_suffixed :
    derived .primary * tail ≤ derived .suffixed * (powers * (products * sums)) := by
  rw [tail, ← mul_assoc]
  exact mul_le_mul_left (closed_derived .suffixed) _

theorem primary_mul_tail_le_factor :
    derived .primary * tail ≤ derived .factor * (products * sums) := by
  apply primary_mul_tail_le_suffixed.trans
  rw [← mul_assoc]
  exact mul_le_mul_left (closed_derived .factor) _

theorem primary_mul_tail_le_term : derived .primary * tail ≤ derived .term * sums := by
  apply primary_mul_tail_le_factor.trans
  rw [← mul_assoc]
  exact mul_le_mul_left (closed_derived .term) _

theorem primary_mul_tail_le_expression : derived .primary * tail ≤ derived .expression :=
  primary_mul_tail_le_term.trans (closed_derived .expression)

theorem sums_le_tail : sums ≤ tail := by
  calc sums = 1 * (1 * (1 * sums)) := by simp
    _ ≤ tail := mul_le_mul' one_le_kstar
        (mul_le_mul' one_le_kstar (mul_le_mul_left one_le_kstar _))

theorem products_mul_le_tail : products * sums ≤ tail := by
  calc products * sums = 1 * (1 * (products * sums)) := by simp
    _ ≤ tail := mul_le_mul' one_le_kstar (mul_le_mul_left one_le_kstar _)

theorem powers_mul_le_tail : powers * (products * sums) ≤ tail := by
  calc powers * (products * sums) = 1 * (powers * (products * sums)) := by simp
    _ ≤ tail := mul_le_mul_left one_le_kstar _

theorem one_le_tail : 1 ≤ tail :=
  (one_le_kstar : 1 ≤ sums).trans sums_le_tail

theorem bang_mul_tail_le : single .bang * tail ≤ tail := by
  rw [tail, ← mul_assoc]
  exact mul_le_mul_left mul_kstar_le_kstar _

theorem round_mul_le {operators : Language Kind} (operand rest : Language Kind) {kind : Kind}
    (h : single kind ≤ operators) :
    single kind * (operand * ((operators * operand)∗ * rest)) ≤ (operators * operand)∗ * rest := by
  calc single kind * (operand * ((operators * operand)∗ * rest))
      ≤ operators * (operand * ((operators * operand)∗ * rest)) := mul_le_mul_left h _
    _ = operators * operand * (operators * operand)∗ * rest := by simp only [mul_assoc]
    _ ≤ (operators * operand)∗ * rest := mul_le_mul_left mul_kstar_le_kstar _

/-- An operator and a primary continue the tail on the tier of the operator. -/
theorem operator_mul_le {kind : Kind} {op : Operator} (h : operator? kind = some op) :
    single kind * (derived .primary * tail) ≤ tail := by
  have hsum (hk : single kind ≤ single .plus + single .minus) :
      single kind * (derived .primary * tail) ≤ tail := by
    refine (mul_le_mul_right primary_mul_tail_le_term _).trans (le_trans ?_ sums_le_tail)
    simpa [sums] using round_mul_le (derived .term) 1 hk
  have hproduct (hk : single kind ≤ single .star + single .slash) :
      single kind * (derived .primary * tail) ≤ tail := by
    refine (mul_le_mul_right primary_mul_tail_le_factor _).trans (le_trans ?_ products_mul_le_tail)
    exact round_mul_le _ _ hk
  have hpower (hk : single kind ≤ single .caret) :
      single kind * (derived .primary * tail) ≤ tail := by
    refine (mul_le_mul_right primary_mul_tail_le_suffixed _).trans (le_trans ?_ powers_mul_le_tail)
    exact round_mul_le _ _ hk
  cases kind with
  | plus => exact hsum (le_add_of_nonneg_right zero_le)
  | minus => exact hsum (le_add_of_nonneg_left zero_le)
  | star => exact hproduct (le_add_of_nonneg_right zero_le)
  | slash => exact hproduct (le_add_of_nonneg_left zero_le)
  | caret => exact hpower le_rfl
  | _ => cases h

theorem terminator_mul_program_le :
    single .terminator * derived .program ≤ derived .program := by
  set e : Language Kind := single .terminator with he
  set piece : Language Kind :=
    e∗ * (derived .statement * (e + single .endOfInput)) with hpiece
  set last : Language Kind := e∗ * single .endOfInput with hlast
  have hle : piece∗ * last ≤ derived .program := closed_derived .program
  have hlast' : e * last ≤ last := by
    rw [hlast, ← mul_assoc]
    exact mul_le_mul_left mul_kstar_le_kstar _
  have hpiece' : e * piece ≤ piece := by
    rw [hpiece, ← mul_assoc]
    exact mul_le_mul_left mul_kstar_le_kstar _
  -- The terminator joins the first statement, or the end if there is no statement.
  calc e * derived .program ≤ e * (piece∗ * last) := mul_le_mul_right (derived_le .program) _
    _ = e * last + e * piece * (piece∗ * last) := by
        conv_lhs => rw [← one_add_mul_kstar]
        simp only [add_mul, one_mul, mul_add, mul_assoc]
    _ ≤ last + piece * (piece∗ * last) :=
        add_le_add hlast' (mul_le_mul_left hpiece' _)
    _ = piece∗ * last := by
        conv_rhs => rw [← one_add_mul_kstar]
        simp only [add_mul, one_mul, mul_assoc]
    _ ≤ derived .program := hle

theorem nil_mem_beginning : [] ∈ beginning := by
  refine ⟨1, closed_derived .program ?_⟩
  have hlast : [Kind.endOfInput] ∈ (single .terminator)∗ * single .endOfInput :=
    Language.append_mem_mul (Language.nil_mem_kstar _) (mem_single.mpr rfl)
  exact Language.append_mem_mul (Language.nil_mem_kstar _) hlast

theorem terminator_mul_beginning_le : single .terminator * beginning ≤ beginning := by
  intro w hw
  obtain ⟨u, hu, v, ⟨n, hv⟩, rfl⟩ := Language.mem_mul.mp hw
  refine ⟨n, ?_⟩
  rw [List.append_assoc]
  exact mem_of_le terminator_mul_program_le (Language.append_mem_mul hu hv)

theorem statement_mul_le {separator : Language Kind}
    (h : separator ≤ single .terminator + single .endOfInput) :
    derived .statement * (separator * derived .program) ≤ derived .program := by
  have hpiece : derived .statement * separator ≤ (single .terminator)∗ *
      (derived .statement * (single .terminator + single .endOfInput)) := by
    calc derived .statement * separator = 1 * (derived .statement * separator) := by simp
      _ ≤ _ := mul_le_mul' one_le_kstar (mul_le_mul_right h _)
  calc derived .statement * (separator * derived .program)
      = derived .statement * separator * derived .program := by rw [mul_assoc]
    _ ≤ _ := mul_le_mul' hpiece (derived_le .program)
    _ ≤ Nonterminal.program.form.language derived := by
        simp only [Nonterminal.form, Form.language]
        rw [← mul_assoc]
        exact mul_le_mul_left mul_kstar_le_kstar _
    _ ≤ derived .program := closed_derived .program

theorem statement_mul_ending_le : derived .statement * ending ≤ beginning := by
  intro w hw
  obtain ⟨u, hu, v, hv, rfl⟩ := Language.mem_mul.mp hw
  rcases (Language.mem_add ..).mp hv with hv | hv
  · -- The end of the input is seen twice: after the statement and after the program.
    obtain ⟨n, hn⟩ := nil_mem_beginning
    refine ⟨n + 1, mem_of_le (statement_mul_le (le_add_of_nonneg_left zero_le)) ?_⟩
    rw [(Language.mem_one v).mp hv, List.append_nil, List.replicate_succ]
    exact Language.append_mem_mul hu (Language.append_mem_mul (mem_single.mpr rfl) hn)
  · obtain ⟨t, ht, rest, ⟨n, hn⟩, rfl⟩ := Language.mem_mul.mp hv
    refine ⟨n, mem_of_le (statement_mul_le (le_add_of_nonneg_right zero_le)) ?_⟩
    simp only [List.append_assoc]
    exact Language.append_mem_mul hu (Language.append_mem_mul ht hn)

theorem le_tail_mul (l : Language Kind) : l ≤ tail * l := by
  calc l = 1 * l := (one_mul l).symm
    _ ≤ tail * l := mul_le_mul_left one_le_tail l

theorem single_le_primary {kind : Kind} (h : kind = .number ∨ kind = .name) :
    single kind ≤ derived .primary := by
  refine le_trans ?_ (closed_derived .primary)
  rcases h with rfl | rfl
  · exact le_add_of_nonneg_right zero_le
  · exact le_trans (le_add_of_nonneg_right zero_le) (le_add_of_nonneg_left zero_le)

theorem group_le_primary :
    single .openParen * (derived .expression * single .closeParen) ≤ derived .primary := by
  refine le_trans ?_ (closed_derived .primary)
  exact le_trans (le_add_of_nonneg_left zero_le) (le_add_of_nonneg_left zero_le)

theorem primary_mul_ending_le : derived .primary * (tail * ending) ≤
    derived .expression * ending := by
  rw [← mul_assoc]
  exact mul_le_mul_left primary_mul_tail_le_expression _

theorem startOperand_future_le {opened : List Position} {t : Token} {s : State}
    (h : State.startOperand opened t = some s) :
    single t.kind * s.future ≤ derived .primary * (tail * closing opened) := by
  rcases State.startOperand_cases h with ⟨hk, rfl⟩ | ⟨hk, rfl⟩
  · exact mul_le_mul_left (single_le_primary hk) _
  · rw [hk]
    calc single .openParen * (derived .primary * (tail *
          (single .closeParen * (tail * closing opened))))
        = single .openParen * (derived .primary * tail * single .closeParen) *
            (tail * closing opened) := by simp only [mul_assoc]
      _ ≤ single .openParen * (derived .expression * single .closeParen) *
            (tail * closing opened) :=
          mul_le_mul_left (mul_le_mul_right
            (mul_le_mul_left primary_mul_tail_le_expression _) _) _
      _ ≤ derived .primary * (tail * closing opened) := mul_le_mul_left group_le_primary _

theorem extendOperand_future_le {opened : List Position} {t : Token} {s : State}
    (h : State.extendOperand opened t = some s) :
    single t.kind * s.future ≤ tail * closing opened := by
  rcases State.extendOperand_cases h with
    ⟨op, hop, rfl⟩ | ⟨hk, rfl⟩ | ⟨innermost, outer, hk, rfl, rfl⟩ | ⟨hk, rfl, rfl⟩
  · calc single t.kind * (derived .primary * (tail * closing opened))
        = single t.kind * (derived .primary * tail) * closing opened := by simp only [mul_assoc]
      _ ≤ tail * closing opened := mul_le_mul_left (operator_mul_le hop) _
  · rw [hk]
    calc single .bang * (tail * closing opened)
        = single .bang * tail * closing opened := by rw [mul_assoc]
      _ ≤ tail * closing opened := mul_le_mul_left bang_mul_tail_le _
  · rw [hk]
    exact le_tail_mul _
  · rw [hk]
    exact le_trans (le_add_of_nonneg_left zero_le) (le_tail_mul ending)

theorem statement_le_beginning {l : Language Kind} (h : l ≤ derived .statement) :
    l * ending ≤ beginning :=
  (mul_le_mul_left h ending).trans statement_mul_ending_le

theorem step_fresh_future_le {t : Token} {s : State} (h : State.step .fresh t = some s) :
    single t.kind * s.future ≤ beginning := by
  have hprint : single .print * derived .expression ≤ derived .statement :=
    le_trans (le_add_of_nonneg_right zero_le) (closed_derived .statement)
  have hassign : single .name * (single .assign * derived .expression) ≤ derived .statement := by
    refine le_trans ?_ (closed_derived .statement)
    exact le_trans (le_add_of_nonneg_right zero_le) (le_add_of_nonneg_left zero_le)
  have hbare : derived .expression ≤ derived .statement := by
    refine le_trans ?_ (closed_derived .statement)
    exact le_trans (le_add_of_nonneg_left zero_le) (le_add_of_nonneg_left zero_le)
  have hoperand : derived .primary * (tail * ending) ≤ beginning :=
    primary_mul_ending_le.trans (statement_le_beginning hbare)
  rcases State.step_fresh_cases h with ⟨hk, rfl⟩ | ⟨hk, rfl⟩ | ⟨hk, rfl⟩ | ⟨-, hstart⟩
  · rw [hk]
    exact terminator_mul_beginning_le
  · rw [hk]
    calc single .print * (derived .primary * (tail * ending))
        ≤ single .print * (derived .expression * ending) :=
          mul_le_mul_right primary_mul_ending_le _
      _ = single .print * derived .expression * ending := by rw [mul_assoc]
      _ ≤ beginning := statement_le_beginning hprint
  · rw [hk, State.future, mul_add]
    refine add_le ?_ ?_
    · calc single .name * (single .assign * (derived .primary * (tail * ending)))
          ≤ single .name * (single .assign * (derived .expression * ending)) :=
            mul_le_mul_right (mul_le_mul_right primary_mul_ending_le _) _
        _ = single .name * (single .assign * derived .expression) * ending := by
            simp only [mul_assoc]
        _ ≤ beginning := statement_le_beginning hassign
    · exact (mul_le_mul_left (single_le_primary (Or.inr rfl)) _).trans hoperand
  · exact (startOperand_future_le hstart).trans hoperand

/-- What goes on after a token goes on, with the token, from before it. -/
theorem step_future_le {s s' : State} {t : Token} (h : s.step t = some s') :
    single t.kind * s'.future ≤ s.future := by
  cases s with
  | fresh => exact step_fresh_future_le h
  | named =>
      rcases State.step_named_cases h with ⟨hk, rfl⟩ | hextend
      · rw [hk]
        exact le_add_of_nonneg_right zero_le
      · exact (extendOperand_future_le hextend).trans (le_add_of_nonneg_left zero_le)
  | operand after opened => exact startOperand_future_le h
  | operator opened => exact extendOperand_future_le h

theorem nil_mem_tail_mul_ending : [] ∈ tail * ending :=
  Language.append_mem_mul (mem_of_le one_le_tail Language.nil_mem_one)
    ((Language.mem_add ..).mpr (Or.inl Language.nil_mem_one))

theorem nil_mem_future {s : State} (h : s.complete = true) : [] ∈ s.future := by
  cases s with
  | fresh => exact nil_mem_beginning
  | named => exact (Language.mem_add ..).mpr (Or.inr nil_mem_tail_mul_ending)
  | operand after opened => cases h
  | operator opened =>
      rw [List.isEmpty_iff.mp h]
      exact nil_mem_tail_mul_ending

theorem mem_future_of_run {s s' : State} {ts : List Token} (h : s.run ts = some s')
    (hcomplete : s'.complete = true) : ts.map Token.kind ∈ s.future := by
  induction ts generalizing s with
  | nil =>
      cases h
      exact nil_mem_future hcomplete
  | cons t ts ih =>
      obtain ⟨m, hm, hrun⟩ := Option.bind_eq_some_iff.mp h
      exact mem_of_le (step_future_le hm)
        (Language.append_mem_mul (mem_single.mpr rfl) (ih hrun))

/-! ## Acceptance -/

/-- The automaton accepts exactly the grammatical sequences. -/
theorem grammatical_iff_run {ts : List Token} :
    Grammatical ts ↔ ∃ s, State.run .fresh ts = some s ∧ s.complete = true := by
  constructor
  · exact exists_run_of_grammatical
  · rintro ⟨s, hrun, hcomplete⟩
    obtain ⟨n, hn⟩ := mem_future_of_run hrun hcomplete
    exact ⟨State.not_endOfInput_of_run hrun, n, hn⟩

def closers (opened : List Position) : List Token :=
  opened.map fun pos => Token.ofValue .closeParen (.text ")") pos

/-- A shortest way to go on to the end of a program. -/
def State.completion : State → List Token
  | .fresh => []
  | .named => []
  | .operand _ opened => Token.ofValue .number (.number 0) .unknown :: closers opened
  | .operator opened => closers opened

theorem run_closers (opened : List Position) :
    State.run (.operator opened) (closers opened) = some (.operator []) := by
  induction opened with
  | nil => rfl
  | cons pos opened ih =>
      have hstep : State.step (.operator (pos :: opened))
          (Token.ofValue .closeParen (.text ")") pos) = some (.operator opened) :=
        State.step_close rfl pos opened
      simpa [closers, hstep] using ih

theorem run_completion (s : State) :
    ∃ s', s.run s.completion = some s' ∧ s'.complete = true := by
  cases s with
  | fresh => exact ⟨.fresh, rfl, rfl⟩
  | named => exact ⟨.named, rfl, rfl⟩
  | operand after opened => exact ⟨.operator [], run_closers opened, rfl⟩
  | operator opened => exact ⟨.operator [], run_closers opened, rfl⟩

/-- The automaton gets through exactly the starts of programs. -/
theorem viable_iff_run {ts : List Token} : Viable ts ↔ ∃ s, State.run .fresh ts = some s := by
  constructor
  · rintro ⟨more, h⟩
    obtain ⟨s, hs, -⟩ := grammatical_iff_run.mp h
    obtain ⟨m, hm, -⟩ := State.exists_run_of_append hs
    exact ⟨m, hm⟩
  · rintro ⟨s, hs⟩
    obtain ⟨s', hs', hcomplete⟩ := run_completion s
    exact ⟨s.completion, grammatical_iff_run.mpr ⟨s', State.run_trans hs hs', hcomplete⟩⟩

end Reckoner.Grammar
