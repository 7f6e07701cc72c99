import Reckoner.Proofs.Parse.LiveText
import Reckoner.Proofs.Parse.Steady
import Reckoner.Proofs.Scan.Positions

/-!
# The end-of-input token

The end-of-input token of a text stands right after its last token. No step of parsing changes this,
neither one that looks further ahead nor one that fails: as soon as the tokens of the text have come
to their end, this token is the one that a reader shows.
-/

namespace Reckoner

namespace Reader

/-- What a parser can be asked for: single tokens, or what one of its rules reads. -/
inductive Operation
  | peek (offset : Int)
  | advance
  | accept (kinds : List Token.Kind)
  | expect (kinds : List Token.Kind)
  | program
  | statement
  | printing
  | assignment
  | expression
  | term
  | factor
  | suffixed
  | primary
  | group

/-- The reader after an operation, whether it fails or not. -/
def perform (r : Reader) : Operation → Reader
  | .peek offset => (Parse.peekAt offset r).2
  | .advance => (Parse.advance r).2
  | .accept kinds => (Parse.accept kinds r).2
  | .expect kinds => (Parse.expect kinds r).2
  | .program => (Parse.program r).2
  | .statement => (Parse.statement r).2
  | .printing => (Parse.printing r).2
  | .assignment => (Parse.assignment r).2
  | .expression => (Parse.expression r).2
  | .term => (Parse.term Parse.nested r).2
  | .factor => (Parse.factor Parse.nested r).2
  | .suffixed => (Parse.suffixed Parse.nested r).2
  | .primary => (Parse.primary Parse.nested r).2
  | .group => (Parse.group Parse.nested r).2

def performAll (r : Reader) (ops : List Operation) : Reader :=
  ops.foldl perform r

theorem ending_perform (r : Reader) (op : Operation) : (r.perform op).ending = r.ending := by
  have hnested : Parse.Steady True Parse.nested := Parse.steady_within _
  cases op with
  | peek offset => exact (Parse.steady_peekAt offset).ending_eq r
  | advance => exact Parse.steady_advance.ending_eq r
  | accept kinds => exact (Parse.steady_accept kinds).ending_eq r
  | expect kinds => exact (Parse.steady_expect kinds).ending_eq r
  | program => exact Parse.steady_program.ending_eq r
  | statement => exact Parse.steady_statement.ending_eq r
  | printing => exact Parse.steady_printing.ending_eq r
  | assignment => exact Parse.steady_assignment.ending_eq r
  | expression => exact (Parse.steady_within _).ending_eq r
  | term => exact hnested.term.ending_eq r
  | factor => exact hnested.factor.ending_eq r
  | suffixed => exact hnested.suffixed.ending_eq r
  | primary => exact hnested.primary.ending_eq r
  | group => exact hnested.group.ending_eq r

theorem ending_performAll (r : Reader) (ops : List Operation) :
    (r.performAll ops).ending = r.ending := by
  induction ops generalizing r with
  | nil => rfl
  | cons op ops ih => exact (ih (r.perform op)).trans (ending_perform r op)

theorem ending_ofSource (source : String) :
    (ofSource source).ending = sentinelAfter (tokenize source).tokens.getLast? := by
  change sentinelAfter ((tokenize source).tokens.getLast?.or none) = _
  rw [Option.or_none]

theorem isSome_sentinel_of_peek {source : String} (herror : (tokenize source).error? = none)
    {k : Nat} (hk : (tokenize source).tokens.length ≤ k) :
    (Parse.peek k (ofSource source)).2.sentinel?.isSome = true := by
  have hpeek : Parse.Ensures (Parse.peek k) (ofSource source)
      (fun _ s => s.sentinel?.isSome = true) (fun _ s => s.sentinel?.isSome = true) := by
    apply Parse.ensures_peek
    · intro s htakes hlooked
      apply hlooked.resolve_left
      have hrest : s.rest.length = (tokenize source).tokens.length :=
        congrArg List.length htakes.rest_of_nil
      rw [rest, List.length_append] at hrest
      omega
    · intro e s hbreaks _
      have hnone := hbreaks.error_eq
      rw [error?_ofSource, herror] at hnone
      cases hnone
  rcases hstep : Parse.peek k (ofSource source) with ⟨f | t, s⟩
  · exact hpeek.of_error hstep
  · exact hpeek.of_ok hstep

end Reader

/-- Cursor, tokens and errors stand where they seem to stand. After any operations a cursor is
inside the text, in the line and the column of the character before which it stands. Tokens and
errors have the position of the first character of their lexeme; each token ends before the next one
starts. Once a parser has come to the end of the tokens, by whatever operations, its end-of-input
token stands in the line of the last token, right after it; and it comes to the end if it looks far
enough. -/
theorem positions_tracked (source : String) :
    (∀ ops : List Cursor.Operation,
      let c := (Cursor.start source).performAll ops
      let beginning := source.toList.take c.position.toNat
      0 ≤ c.position ∧ c.position ≤ source.length ∧
        c.line = 1 + beginning.count '\n' ∧
        c.column = 1 + (beginning.reverse.takeWhile (· != '\n')).length) ∧
    (∀ t ∈ (tokenize source).tokens, ∃ before l rest,
      source.toList = before ++ (l ++ rest) ∧ Lexeme l rest t.kind t.value ∧
        t.length = l.length ∧ 0 < t.length ∧ t.pos = Position.after before) ∧
    (∀ e, (tokenize source).error? = some e → ∃ before rest wording,
      source.toList = before ++ rest ∧ Fault (Position.after before) rest e ∧
        e.diagnostic? = some ⟨wording, Position.after before⟩) ∧
    (tokenize source).tokens.Pairwise Token.Precedes ∧
    ∀ last, (tokenize source).tokens.getLast? = some last →
      (∀ (ops : List Reader.Operation) (sentinel : Token),
        ((Reader.ofSource source).performAll ops).sentinel? = some sentinel →
          sentinel.kind = .endOfInput ∧
            sentinel.pos = ⟨last.pos.line, last.pos.col + last.length⟩) ∧
      ((tokenize source).error? = none → ∀ k, (tokenize source).tokens.length ≤ k →
        ((Reader.ofSource source).performAll [.peek k]).sentinel?.isSome) := by
  refine ⟨fun ops => ?_, fun t ht => ?_, fun e he => ?_, tokens_pairwise_precedes source,
    fun last hlast => ⟨fun ops sentinel hsentinel => ?_, fun herror k hk => ?_⟩⟩
  · obtain ⟨hinside, hle, hpos⟩ :=
      (Cursor.reaches_performAll (Int.le_refl 0) ops : (Cursor.start source).Reaches _).tracks
    exact ⟨hinside, hle, congrArg Position.line hpos, congrArg Position.col hpos⟩
  · obtain ⟨before, l, rest, hsplit, hl, hlength, hpos⟩ := exists_lexeme_of_mem_tokens source t ht
    have hne := List.length_pos_iff.mpr hl.ne_nil
    exact ⟨before, l, rest, hsplit, hl, hlength, by omega, hpos⟩
  · obtain ⟨before, rest, hsplit, hfault⟩ := exists_fault_of_error source he
    obtain ⟨wording, hwording⟩ := hfault.exists_diagnostic
    exact ⟨before, rest, wording, hsplit, hfault, hwording⟩
  · have hending := Reader.ending_performAll (Reader.ofSource source) ops
    rw [Reader.ending_ofSource, hlast, Reader.ending, hsentinel] at hending
    have hsame : sentinel = Reader.sentinelAfter (some last) := hending
    rw [hsame]
    exact ⟨rfl, rfl⟩
  · exact Reader.isSome_sentinel_of_peek herror hk

end Reckoner
