import Reckoner.Parse.Reader

/-!
# Parsing steps

A step of parsing reads tokens and ends in a result or a failure. Steps are put in sequence, and
the first failure ends the sequence. The reader has moved in either case, so that what follows a
failure is known. The steps of this module look at single tokens and take them.
-/

namespace Reckoner

/-- A step of parsing: it ends in a result or a failure, and the reader has moved in both
cases. -/
def Parse (α : Type) := Reader → Except ParseFailure α × Reader

namespace Parse

variable {α β : Type}

instance : Monad Parse where
  pure a := fun r => (.ok a, r)
  bind step next := fun r =>
    match step r with
    | (.ok a, rest) => next a rest
    | (.error failure, rest) => (.error failure, rest)

theorem pure_apply (a : α) (r : Reader) : (pure a : Parse α) r = (.ok a, r) :=
  rfl

theorem bind_apply (step : Parse α) (next : α → Parse β) (r : Reader) :
    (step >>= next) r =
      match step r with
      | (.ok a, rest) => next a rest
      | (.error failure, rest) => (.error failure, rest) :=
  rfl

theorem bind_assoc {γ : Type} (step : Parse α) (f : α → Parse β) (g : β → Parse γ) :
    step >>= f >>= g = step >>= fun a => f a >>= g := by
  funext r
  simp only [bind_apply]
  rcases step r with ⟨_ | _, _⟩ <;> rfl

/-- Ends in a failure. -/
def fail (failure : ParseFailure) : Parse α :=
  fun r => (.error failure, r)

/-- Ends in a parse error. -/
def reject (error : ParseError) : Parse α :=
  fail (.parse error)

/-- Adds an event to the record. -/
def record (event : Event) : Parse Unit :=
  fun r => (.ok (), r.record event)

/-- A bound on the number of tokens to come, and one more. -/
def fuel : Parse Nat :=
  fun r => (.ok (r.budget + 1), r)

/-- Runs a step and replaces a failure for depth by another one. -/
def ifTooDeep (step : Parse α) (replacement : ParseFailure) : Parse α := fun r =>
  match step r with
  | (.error .tooDeep, rest) => (.error replacement, rest)
  | outcome => outcome

/-! ## Taking tokens -/

/-- The token at a distance from the next one, which is not taken. -/
def peek (offset : Nat) : Parse Token := fun r =>
  match r.fill (offset + 1) with
  | (.ok (), rest) => (.ok (rest.look offset), rest)
  | (.error e, rest) => (.error (.scan e), rest)

/-- The token at an offset: from the next token on, or, if the offset is negative, back from the
last token that was looked at and not yet taken, which has the offset `-1`. -/
def peekAt : Int → Parse Token
  | .ofNat offset => peek offset
  | .negSucc distance => fun r =>
    match r.lookBack? distance with
    | some token => (.ok token, r)
    | none => (.error (.nothingAt (.negSucc distance)), r)

/-- The next token, which is not taken. -/
def current : Parse Token :=
  peek 0

/-- Takes the next token. -/
def advance : Parse Token := do
  let token ← current
  fun r => (.ok token, r.drop)

/-- Takes the next token if it is of one of the kinds. -/
def accept (kinds : List Token.Kind) : Parse (Option Token) := do
  let token ← current
  if kinds.contains token.kind then return some (← advance) else return none

/-- Takes the next token, which has to be of one of the kinds. -/
def expect (kinds : List Token.Kind) : Parse Token := do
  match ← accept kinds with
  | some token => return token
  | none => reject (.unexpected (← current))

end Parse

end Reckoner
