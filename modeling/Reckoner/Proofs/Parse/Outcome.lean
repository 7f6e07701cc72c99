import Reckoner.Proofs.Parse.Ensures
import Reckoner.Proofs.Tree.Unambiguity
import Reckoner.Parse.Rules

/-!
# How parsing ends

Parsing follows the automaton of the grammar. A rule that reads an expression takes tokens that
cross an operand and gives the tree that they spell. A rule that fails has taken tokens that the
automaton gets through, and stands at a token that the state refuses, at the error of the text or
in front of one parenthesis too many.
-/

namespace Reckoner

open Grammar

namespace Grammar.State

/-- Whether no program goes on with the token; the end of the input is no step but may be where a
program ends. -/
def Refuses (s : State) (t : Token) : Prop :=
  s.step t = none ∧ (t.kind = .endOfInput → s.complete = false)

/-- The error about a token that the state refuses. Where a statement or the input ends too early,
it says what is missing: an operand, or the end of the innermost parenthesis. -/
def complaint : State → Token → ParseError
  | .operand after _, t =>
    if t.kind.isEnd = false then .unexpected t
    else if after.kind = .print ∨ after.kind = .assign then ⟨.expectedExpression after.value, t⟩
    else if (operator? after.kind).isSome then ⟨.missingOperand after.value, t⟩
    else .unexpected t
  | .operator (innermost :: _), t =>
    if t.kind.isEnd then ⟨.neverClosed innermost, t⟩ else .unexpected t
  | _, t => .unexpected t

end Grammar.State

@[simp] theorem ParseError.unexpected_token (t : Token) : (ParseError.unexpected t).token = t := by
  unfold unexpected
  split <;> rfl

namespace Grammar.State

@[simp] theorem complaint_token (s : State) (t : Token) : (s.complaint t).token = t := by
  unfold complaint
  split
  · split_ifs <;> simp
  · split_ifs <;> simp
  · simp

theorem complaint_operand {after : Token} {opened : List Position} {t : Token}
    (h : t.kind.isEnd = false) : (State.operand after opened).complaint t = .unexpected t := by
  simp [complaint, h]

theorem complaint_opening {after : Token} {opened : List Position} (t : Token)
    (h : after.kind = .openParen) : (State.operand after opened).complaint t = .unexpected t := by
  simp [complaint, h, operator?]

theorem run_singleton {s s' : State} {t : Token} (h : s.step t = some s') :
    s.run [t] = some s' := by
  simp [h]

end Grammar.State

namespace Parse

/-- How parsing fails that starts in a state, with the reader, if so many parentheses may be
open. -/
inductive Fails (limit : Nat) (s : State) (r : Reader) : ParseFailure → Reader → Prop
  -- No program goes on with the next token.
  | refused {xs : List Token} {m : State} {r' : Reader} :
      r.Takes xs r' → s.run xs = some m → r'.Settled → m.Refuses r'.next →
        Fails limit s r (.parse (m.complaint r'.next)) r'
  -- The text has an error after the tokens.
  | broken {xs : List Token} {m : State} {middle r' : Reader} {e : ScanError} :
      r.Takes xs middle → s.run r.rest = some m → middle.Breaks e r' →
        Fails limit s r (.scan e) r'
  -- Too many parentheses are open.
  | deep {xs : List Token} {m : State} {r' : Reader} :
      r.Takes xs r' → s.run xs = some m → limit < m.opened.length → Fails limit s r .tooDeep r'
  -- Too many parentheses are open in a statement that starts after some tokens.
  | buried {xs ys : List Token} {m : State} {start r' : Reader} :
      r.Takes xs start → s.run xs = some .fresh → start.Settled → start.Takes ys r' →
        State.run .fresh ys = some m → limit < m.opened.length →
          Fails limit s r (.parse ⟨.tooDeep, start.next⟩) r'
  -- A number has a value that cannot be used.
  | unusable {t : Token} {f : ParseFailure} {r' : Reader} :
      t ∈ r.rest → t.kind = .number → numberOf t.value = .error f → Fails limit s r f r'

/-- What was taken before parsing goes on belongs to the way to the failure. -/
theorem Fails.after {limit : Nat} {s s' : State} {r middle r' : Reader} {xs : List Token}
    {f : ParseFailure} (h : Fails limit s' middle f r') (htakes : r.Takes xs middle)
    (hrun : s.run xs = some s') : Fails limit s r f r' := by
  cases h with
  | refused htakes' hrun' hsettled hrefuses =>
      exact .refused (htakes.trans htakes') (State.run_trans hrun hrun') hsettled hrefuses
  | broken htakes' hrun' hbreaks =>
      have hall := State.run_trans hrun hrun'
      rw [← htakes.rest_eq] at hall
      exact .broken (htakes.trans htakes') hall hbreaks
  | deep htakes' hrun' hdeep =>
      exact .deep (htakes.trans htakes') (State.run_trans hrun hrun') hdeep
  | buried htakes' hrun' hsettled hstart hstate hdeep =>
      exact .buried (htakes.trans htakes') (State.run_trans hrun hrun') hsettled hstart hstate hdeep
  | unusable hmem hkind hvalue =>
      refine .unusable ?_ hkind hvalue
      rw [htakes.rest_eq]
      exact List.mem_append_right xs hmem

theorem Fails.of_breaks {limit : Nat} {s m : State} {r middle r' : Reader} {xs : List Token}
    {e : ScanError} (htakes : r.Takes xs middle) (hrun : s.run xs = some m)
    (hbreaks : middle.Breaks e r') (hnil : middle.rest = []) : Fails limit s r (.scan e) r' := by
  have hrest : r.rest = xs := by rw [htakes.rest_eq, hnil, List.append_nil]
  rw [← hrest] at hrun
  exact .broken htakes hrun hbreaks

theorem Fails.at_once {limit : Nat} {s : State} {r r' : Reader} {e : ScanError}
    (hbreaks : r.Breaks e r') (hnil : r.rest = []) : Fails limit s r (.scan e) r' :=
  .of_breaks (Reader.Takes.refl r) rfl hbreaks hnil

/-- Whether an expression that binds at least so tightly was read from the tokens. -/
structure Reads (k : Nat) (after : Token) (opened : List Position) (r : Reader) (xs : List Token)
    (t : Tree) (r' : Reader) : Prop where
  takes : r.Takes xs r'
  run : State.run (.operand after opened) xs = some (.operator opened)
  tiered : t.Tiered
  le_rank : k ≤ t.rank
  spells : (∀ x ∈ xs, x.Lexical) → t.Spells xs

/-- Whether the next token does not extend an operand by something that binds so tightly. -/
def Stops (k : Nat) (r : Reader) : Prop :=
  r.Settled ∧ ∀ b, r.next.kind.rank? = some b → b < k

/-- Whether a rule reads expressions that bind at least so tightly, as long as they go, with the
parentheses open that were opened at the positions. -/
def ReadsOperand (limit k : Nat) (opened : List Position) (rule : Parse Tree) : Prop :=
  ∀ (after : Token) (r : Reader), r.ending.kind = .endOfInput →
    (State.operand after opened).complaint r.next = .unexpected r.next →
      Ensures rule r (fun t r' => ∃ xs, Reads k after opened r xs t r' ∧ Stops k r')
        (Fails limit (.operand after opened) r)

section Reads

variable {k : Nat} {after : Token} {opened : List Position} {r r' r'' : Reader}
  {xs ys : List Token} {t u : Tree} {tok : Token}

theorem Reads.mono {j : Nat} (h : Reads k after opened r xs t r') (hle : j ≤ k) :
    Reads j after opened r xs t r' :=
  { h with le_rank := hle.trans h.le_rank }

theorem Reads.factorial (h : Reads 3 after opened r xs t r') (htakes : r'.Takes [tok] r'')
    (hk : tok.kind = .bang) :
    Reads 3 after opened r (xs ++ [tok]) (.factorial tok.pos t) r'' where
  takes := h.takes.trans htakes
  run := State.run_trans h.run (State.run_singleton (State.step_bang hk opened))
  tiered := .factorial tok.pos h.tiered h.le_rank
  le_rank := Nat.le_refl 3
  spells hlex := by
    refine Tree.Spells.factorial_iff.mpr ⟨xs, tok, rfl, h.spells fun x hx => hlex x ?_, ?_⟩
    · exact List.mem_append_left _ hx
    · simp [Token.mark, hk]

theorem Reads.binary {op : Operator} (h : Reads op.rank after opened r xs t r')
    {middle : Reader} (htakes : r'.Takes [tok] middle) (hop : operator? tok.kind = some op)
    (h' : Reads (op.rank + 1) tok opened middle ys u r'') :
    Reads op.rank after opened r (xs ++ tok :: ys) (.binary tok.pos op t u) r'' where
  takes := h.takes.trans (htakes.trans h'.takes)
  run := by
    apply State.run_trans h.run
    rw [State.run_cons, State.step_operator hop]
    exact h'.run
  tiered := .binary tok.pos h.tiered h'.tiered h.le_rank h'.le_rank
  le_rank := Nat.le_refl _
  spells hlex := by
    have hk := Operator.token_eq_of_operator? hop
    refine Tree.Spells.binary_iff.mpr ⟨xs, tok, ys, rfl, h.spells fun x hx => hlex x ?_, ?_,
      h'.spells fun x hx => hlex x ?_⟩
    · exact List.mem_append_left _ hx
    · cases op <;> simp [Token.mark, hk, Operator.token]
    · exact List.mem_append_right _ (List.mem_cons_of_mem tok hx)

theorem Reads.group {opening closing : Token} {middle : Reader}
    (htakes : r.Takes [opening] middle) (hopening : opening.kind = .openParen)
    (h : Reads 0 opening (opening.pos :: opened) middle xs t r')
    (htakes' : r'.Takes [closing] r'') (hclosing : closing.kind = .closeParen) :
    Reads 4 after opened r (opening :: (xs ++ [closing])) (.group opening.pos t) r'' where
  takes := htakes.trans (h.takes.trans htakes')
  run := by
    have hstep : State.step (.operand after opened) opening =
        some (.operand opening (opening.pos :: opened)) := by
      simp [State.step, State.startOperand, hopening]
    rw [State.run_cons, hstep]
    exact State.run_trans h.run (State.run_singleton (State.step_close hclosing _ opened))
  tiered := .group opening.pos h.tiered
  le_rank := Nat.le_refl 4
  spells hlex := by
    refine Tree.Spells.group_iff.mpr ⟨opening, xs, closing, rfl, ?_, h.spells fun x hx => hlex x ?_,
      ?_⟩
    · simp [Token.mark, hopening]
    · exact List.mem_cons_of_mem opening (List.mem_append_left _ hx)
    · simp [Token.mark, hclosing]

end Reads

end Parse

end Reckoner
