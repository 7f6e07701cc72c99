import Reckoner.Proofs.Grammar.Parentheses
import Reckoner.Proofs.Parse.Correctness

/-!
# What a refusal says

The wording of a refusal depends on two tokens, the one that is refused and the last one that was
taken, and where a parenthesis is left open on the place of that parenthesis. The causes of a
refusal are stated on the tokens alone. Exactly one of them applies, and it gives the wording.
-/

namespace Reckoner

open Grammar

/-- Whether a token of the kind can be the last one of an operand. -/
def Token.Kind.endsOperand (kind : Token.Kind) : Bool :=
  kind == .number || kind == .name || kind == .closeParen || kind == .bang

/-- Why a token is refused. -/
inductive Cause
  -- Nothing stands to the right of the operator.
  | missingOperand (operator : Token)
  -- Nothing follows the keyword or the equals sign.
  | missingExpression (lead : Token)
  -- The parenthesis is open where the statement ends.
  | neverClosed (opening : Token)
  -- The input ends after an opening parenthesis.
  | endAfterOpening
  | strayClosing
  | strayToken

namespace Cause

/-- Whether the token is refused for this cause after the tokens that were taken. -/
def Applies (taken : List Token) (t : Token) : Cause → Prop
  | missingOperand p =>
    t.kind.isEnd = true ∧ taken.getLast? = some p ∧ (operator? p.kind).isSome = true
  | missingExpression p =>
    t.kind.isEnd = true ∧ taken.getLast? = some p ∧ (p.kind = .print ∨ p.kind = .assign)
  | neverClosed opening =>
    t.kind.isEnd = true ∧ (∃ p, taken.getLast? = some p ∧ p.kind.endsOperand = true) ∧
      LastUnclosed opening taken
  | endAfterOpening =>
    t.kind = .endOfInput ∧ ∃ p, taken.getLast? = some p ∧ p.kind = .openParen
  | strayClosing => t.kind = .closeParen
  | strayToken =>
    t.kind ≠ .closeParen ∧ ∀ p, taken.getLast? = some p →
      (t.kind.isEnd = true → operator? p.kind = none ∧ p.kind ≠ .print ∧ p.kind ≠ .assign ∧
        p.kind.endsOperand = false) ∧
      (t.kind = .endOfInput → p.kind ≠ .openParen)

/-- The wording of a refusal of the token. -/
def text (t : Token) : Cause → String
  | missingOperand p => "Missing right-hand operand after " ++ p.value.quoted
  | missingExpression p => "Expected an expression after " ++ p.value.quoted
  | neverClosed opening =>
    "Unbalanced parentheses: '(' at line " ++ toString opening.pos.line ++ ", col " ++
      toString opening.pos.col ++ " is never closed"
  | endAfterOpening => "Unexpected end of input"
  | strayClosing => "Unbalanced parentheses: unexpected ')'"
  | strayToken => "Unexpected token " ++ t.describe

/-- The problem that the parser reports. -/
def problem (t : Token) : Cause → ParseProblem
  | missingOperand p => .missingOperand p.value
  | missingExpression p => .expectedExpression p.value
  | neverClosed opening => .neverClosed opening.pos
  | endAfterOpening => .unexpectedEnd
  | strayClosing => .unexpectedClose
  | strayToken => .unexpectedToken t

theorem text_problem (t : Token) (cause : Cause) : (cause.problem t).text = cause.text t := by
  cases cause <;> rfl

/-- At most one cause applies. -/
theorem Applies.unique {taken : List Token} {t : Token} {cause other : Cause}
    (h : cause.Applies taken t) (h' : other.Applies taken t) : other = cause := by
  -- Two causes differ by the kinds of the two tokens, or name the same token.
  cases cause <;> cases other <;>
    grind [Applies, Token.Kind.isEnd, Token.Kind.endsOperand, operator?, LastUnclosed.unique]

/-- A token that does not end the statement is refused without regard to what was taken. -/
theorem exists_applies_of_unexpected {t : Token} (h : t.kind.isEnd = false) (taken : List Token) :
    ∃ cause : Cause, cause.Applies taken t ∧
      ParseError.unexpected t = ⟨cause.problem t, t⟩ := by
  by_cases hclose : t.kind = .closeParen
  · exact ⟨.strayClosing, hclose, by simp [ParseError.unexpected, hclose, problem]⟩
  · have hend : t.kind ≠ .endOfInput := by
      intro hk
      simp [hk, Token.Kind.isEnd] at h
    refine ⟨.strayToken, ⟨hclose, fun p _ => ⟨fun hk => absurd hk (by simp [h]),
      fun hk => absurd hk hend⟩⟩, ?_⟩
    unfold ParseError.unexpected
    split
    · next hk => exact absurd hk hclose
    · next hk => exact absurd hk hend
    · rfl

end Cause

namespace Grammar.State

/-- Whether the state can be reached by tokens that end in this way. -/
def Follows : State → Option Token → Prop
  | fresh, last? => ∀ p, last? = some p → p.kind = .terminator
  | named, last? => ∃ p, last? = some p ∧ p.kind = .name
  | operand after _, last? => last? = some after ∧
      (after.kind = .print ∨ after.kind = .assign ∨ (operator? after.kind).isSome = true ∨
        after.kind = .openParen)
  | operator _, last? => ∃ p, last? = some p ∧ p.kind.endsOperand = true

theorem follows_step {s s' : State} {t : Token} (h : s.step t = some s') :
    s'.Follows (some t) := by
  have hstart {opened : List Position} (h : startOperand opened t = some s') :
      s'.Follows (some t) := by
    rcases startOperand_cases h with ⟨hk | hk, rfl⟩ | ⟨hk, rfl⟩ <;>
      simp [Follows, hk, Token.Kind.endsOperand]
  have hextend {opened : List Position} (h : extendOperand opened t = some s') :
      s'.Follows (some t) := by
    rcases extendOperand_cases h with ⟨op, hop, rfl⟩ | ⟨hk, rfl⟩ | ⟨_, _, hk, rfl, rfl⟩ |
      ⟨hk, rfl, rfl⟩
    · simp [Follows, hop]
    all_goals simp [Follows, hk, Token.Kind.endsOperand]
  cases s with
  | fresh =>
      rcases step_fresh_cases h with ⟨hk, rfl⟩ | ⟨hk, rfl⟩ | ⟨hk, rfl⟩ | ⟨-, hstep⟩
      · simp [Follows, hk]
      · simp [Follows, hk]
      · simp [Follows, hk]
      · exact hstart hstep
  | named =>
      rcases step_named_cases h with ⟨hk, rfl⟩ | hstep
      · simp [Follows, hk]
      · exact hextend hstep
  | operand after opened => exact hstart h
  | operator opened => exact hextend h

theorem follows_run {s : State} {ts : List Token} (h : run .fresh ts = some s) :
    s.Follows ts.getLast? := by
  rcases List.eq_nil_or_concat' ts with rfl | ⟨xs, t, rfl⟩
  · cases h
    intro p hp
    cases hp
  · obtain ⟨m, -, hm⟩ := exists_run_of_append h
    obtain ⟨s', hs', hend⟩ := Option.bind_eq_some_iff.mp hm
    cases hend
    simpa using follows_step hs'

/-- Where a statement may end, neither its end nor that of the input is refused. -/
theorem Refuses.isEnd_eq {s : State} {t : Token} (h : s.Refuses t) (hcomplete : s.complete = true) :
    t.kind.isEnd = false := by
  have hend : t.kind ≠ .endOfInput := by
    intro hk
    simp [h.2 hk] at hcomplete
  have hterminator : t.kind ≠ .terminator := by
    intro hk
    have hstep := h.1
    cases s with
    | fresh => simp [step, hk] at hstep
    | named => simp [step, hk, extendOperand, operator?] at hstep
    | operand after opened => cases hcomplete
    | operator opened =>
        have hnil : opened = [] := List.isEmpty_iff.mp hcomplete
        simp [step, hk, hnil, extendOperand, operator?] at hstep
  simp [Token.Kind.isEnd, hend, hterminator]

theorem exists_applies_of_operand {after t : Token} {opened : List Position} {taken : List Token}
    (h : (operand after opened).Follows taken.getLast?) (hend : t.kind.isEnd = true) :
    ∃ cause : Cause, cause.Applies taken t ∧
      (operand after opened).complaint t = ⟨cause.problem t, t⟩ := by
  obtain ⟨hlast, hlead | hlead | hoperator | hopening⟩ := h
  · exact ⟨.missingExpression after, ⟨hend, hlast, Or.inl hlead⟩, by
      simp [complaint, hend, hlead, Cause.problem]⟩
  · exact ⟨.missingExpression after, ⟨hend, hlast, Or.inr hlead⟩, by
      simp [complaint, hend, hlead, Cause.problem]⟩
  · have hlead : ¬ (after.kind = .print ∨ after.kind = .assign) := by
      rintro (hk | hk) <;> simp [hk, operator?] at hoperator
    exact ⟨.missingOperand after, ⟨hend, hlast, hoperator⟩, by
      simp [complaint, hend, hlead, hoperator, Cause.problem]⟩
  · rw [complaint_opening t hopening]
    by_cases hk : t.kind = .endOfInput
    · exact ⟨.endAfterOpening, ⟨hk, after, hlast, hopening⟩, by
        simp [ParseError.unexpected, hk, Cause.problem]⟩
    · have hterminator : t.kind = .terminator := by
        simpa [Token.Kind.isEnd, hk] using hend
      refine ⟨.strayToken, ⟨by simp [hterminator], fun p hp => ?_⟩, ?_⟩
      · have hsame : p = after := Option.some.inj (hp.symm.trans hlast)
        simp [hsame, hopening, hterminator, operator?, Token.Kind.endsOperand]
      · simp [ParseError.unexpected, hterminator, Cause.problem]

/-- What a state says about a token that it refuses is the wording of a cause that applies. -/
theorem exists_applies_of_refuses {s : State} {taken : List Token} {t : Token}
    (hrun : run .fresh taken = some s) (h : s.Refuses t) :
    ∃ cause : Cause, cause.Applies taken t ∧
      s.complaint t = ⟨cause.problem t, t⟩ := by
  have hfollows := follows_run hrun
  cases s with
  | fresh => exact Cause.exists_applies_of_unexpected (h.isEnd_eq rfl) taken
  | named => exact Cause.exists_applies_of_unexpected (h.isEnd_eq rfl) taken
  | operand after opened =>
      by_cases hend : t.kind.isEnd = true
      · exact exists_applies_of_operand hfollows hend
      · have hother : t.kind.isEnd = false := by simpa using hend
        rw [complaint_operand hother]
        exact Cause.exists_applies_of_unexpected hother taken
  | operator opened =>
      cases opened with
      | nil => exact Cause.exists_applies_of_unexpected (h.isEnd_eq rfl) taken
      | cons innermost outer =>
          by_cases hend : t.kind.isEnd = true
          -- The stack holds the position, the tokens that were taken hold the parenthesis.
          · have hpending : Pending (innermost :: outer) taken :=
              pending_run hrun (.outside [])
            obtain ⟨opening, hopening, rfl⟩ := hpending.exists_lastUnclosed
            exact ⟨.neverClosed opening, ⟨hend, hfollows, hopening⟩, by
              simp [complaint, hend, Cause.problem]⟩
          · have hother : t.kind.isEnd = false := by simpa using hend
            have hcomplaint : (operator (innermost :: outer)).complaint t = .unexpected t := by
              simp [complaint, hother]
            rw [hcomplaint]
            exact Cause.exists_applies_of_unexpected hother taken

end Grammar.State

/-- Exactly one cause applies to the token at which tokens are refused, after the tokens taken by
then, and it gives the wording of the refusal. -/
theorem wording_of_refusal {ts : List Token} (hnesting : nesting ts ≤ Parse.nestingLimit)
    {e : ParseError} {r : Reader}
    (h : Parse.program (Reader.ofTokens ts) = (.error (.parse e), r)) :
    (∃! cause : Cause, cause.Applies (ts.take r.taken) e.token) ∧
      ∀ cause : Cause, cause.Applies (ts.take r.taken) e.token →
        e.diagnostic.text = cause.text e.token := by
  have hfails := (Parse.ensures_program (Reader.kind_ending_ofTokens ts)).of_error h
  cases hfails with
  | @refused xs m _ htakes hrun _ hrefuses =>
      have htaken : ts.take r.taken = xs := by
        have hts : ts = xs ++ r.rest := htakes.rest_eq
        rw [Reader.taken_of_takes_ofTokens htakes, hts, List.take_left]
      obtain ⟨cause, happlies, hcomplaint⟩ := State.exists_applies_of_refuses hrun hrefuses
      rw [htaken, hcomplaint]
      constructor
      · exact ⟨cause, happlies, fun other hother => happlies.unique hother⟩
      · intro other hother
        rw [happlies.unique hother]
        exact cause.text_problem r.next
  | buried htakes hrun _ htakes' hrun' hdeep =>
      have hts := (htakes.trans htakes').rest_eq
      rw [Reader.rest_ofTokens] at hts
      rw [hts] at hnesting
      exact absurd hdeep (Nat.not_lt.mpr
        ((length_opened_le_nesting (State.run_trans hrun hrun')).trans hnesting))
  | unusable _ _ hvalue => simpa using Parse.numberOf_cases hvalue

/-- The input ends where the outer one of two parentheses is open; the inner one is closed. -/
theorem wording_of_open_parenthesis :
    let ts : List Token := [⟨.openParen, .text "(", ⟨1, 1⟩, 1⟩, ⟨.openParen, .text "(", ⟨1, 2⟩, 1⟩,
      ⟨.name, .text "x", ⟨1, 3⟩, 1⟩, ⟨.closeParen, .text ")", ⟨1, 4⟩, 1⟩]
    ∃ e r, nesting ts ≤ Parse.nestingLimit ∧
      Parse.program (Reader.ofTokens ts) = (.error (.parse e), r) ∧
      (∃! cause : Cause, cause.Applies (ts.take r.taken) e.token) ∧
      e.diagnostic.text = "Unbalanced parentheses: '(' at line 1, col 1 is never closed" := by
  intro ts
  have hnesting : nesting ts ≤ Parse.nestingLimit := by decide
  have hprogram : Parse.program (Reader.ofTokens ts) = (.error (.parse
      ⟨.neverClosed ⟨1, 1⟩, Reader.sentinelAfter ts.getLast?⟩), _) := rfl
  exact ⟨_, _, hnesting, hprogram, (wording_of_refusal hnesting hprogram).1, by decide⟩

end Reckoner
