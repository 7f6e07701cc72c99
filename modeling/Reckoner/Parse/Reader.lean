import Reckoner.Parse.Error
import Reckoner.Scan.Lexeme
import Reckoner.Trace

/-!
# Readers

A reader hands out tokens one after the other and can look ahead. It pulls tokens from a supply
only when they are asked for and keeps those that were looked at but not yet taken. Once the
supply has ended, an end-of-input token stands after the last token.
-/

namespace Reckoner

/-- Where tokens come from. -/
inductive Supply
  /-- Tokens that are at hand. -/
  | listed (tokens : List Token)
  /-- A text that is split into tokens on demand. -/
  | live (cursor : Cursor)

namespace Supply

/-- Takes one token, or nothing at the end. A text with an error in it has ended after it. -/
def next : Supply → Except ScanError (Option Token) × Supply
  | .listed [] => (.ok none, .listed [])
  | .listed (token :: tokens) => (.ok (some token), .listed tokens)
  | .live cursor =>
    match cursor.nextToken with
    | (.ok token?, rest) => (.ok token?, .live rest)
    | (.error e, _) => (.error e, .listed [])

/-- Whether tokens are found on demand, which is recorded. -/
def isLive : Supply → Bool
  | .listed _ => false
  | .live _ => true

/-- A bound on the number of tokens to come. -/
def budget : Supply → Nat
  | .listed tokens => tokens.length
  | .live cursor => cursor.remaining

/-- A token that was taken lowers the bound. -/
theorem budget_next_lt {supply rest : Supply} {token : Token}
    (h : supply.next = (.ok (some token), rest)) : rest.budget < supply.budget := by
  unfold next at h
  split at h
  · simp at h
  · cases h
    exact Nat.lt_succ_self _
  · split at h
    · next hNext =>
      cases h
      exact Cursor.remaining_nextToken_lt hNext
    · simp at h

end Supply

/-- An event with the number of tokens that had been taken when it was recorded. -/
structure Entry where
  taken : Nat
  event : Event

/-- Tokens that are read one after the other. -/
structure Reader where
  supply : Supply
  /-- Tokens that were pulled and not yet taken. -/
  buffer : List Token
  /-- The end-of-input token, once the supply has ended. -/
  sentinel? : Option Token
  /-- The token that was pulled last. -/
  last? : Option Token
  /-- Number of tokens taken. -/
  taken : Nat
  /-- What was recorded so far. -/
  trail : Array Entry

namespace Reader

/-- A reader at the start of a supply. -/
def ofSupply (supply : Supply) : Reader :=
  ⟨supply, [], none, none, 0, #[]⟩

/-- A reader of tokens that are at hand. -/
def ofTokens (tokens : List Token) : Reader :=
  ofSupply (.listed tokens)

/-- A reader of a text. -/
def ofSource (source : String) : Reader :=
  ofSupply (.live (Cursor.start source))

/-- A bound on the number of tokens to come. -/
def budget (r : Reader) : Nat :=
  r.buffer.length + r.supply.budget

/-- The end-of-input token after the given last token. -/
def sentinelAfter (last? : Option Token) : Token :=
  let pos : Position :=
    match last? with
    | some last => ⟨last.pos.line, last.endCol⟩
    | none => Position.unknown
  Token.ofValue .endOfInput (.text "EOF") pos

/-- Adds an event to the record. -/
def record (r : Reader) (event : Event) : Reader :=
  { r with trail := r.trail.push ⟨r.taken, event⟩ }

/-- The reader after a token was pulled, of which the given supply is left. -/
def receive (r : Reader) (token : Token) (rest : Supply) : Reader :=
  let trail := if r.supply.isLive then r.trail.push ⟨r.taken, .found token⟩ else r.trail
  { r with supply := rest, buffer := r.buffer ++ [token], last? := some token, trail := trail }

/-- Pulls one token, or finds that the supply has ended. -/
def pull (r : Reader) : Except ScanError Unit × Reader :=
  match r.supply.next with
  | (.ok (some token), rest) => (.ok (), r.receive token rest)
  | (.ok none, rest) =>
    (.ok (), { r with supply := rest, sentinel? := some (sentinelAfter r.last?) })
  | (.error e, rest) => (.error e, { r with supply := rest })

/-- Pulls the given number of tokens, or fewer if the supply ends. -/
def pullMany : Nat → Reader → Except ScanError Unit × Reader
  | 0, r => (.ok (), r)
  | n + 1, r =>
    if r.sentinel?.isSome then (.ok (), r)
    else
      match r.pull with
      | (.ok (), rest) => pullMany n rest
      | (.error e, rest) => (.error e, rest)

/-- Makes the given number of tokens available without taking them. -/
def fill (count : Nat) (r : Reader) : Except ScanError Unit × Reader :=
  pullMany (count - r.buffer.length) r

/-- The token at a distance from the next one, or the end-of-input token. -/
def look (r : Reader) (offset : Nat) : Token :=
  match r.buffer[offset]? with
  | some token => token
  | none => r.sentinel?.getD (sentinelAfter r.last?)

/-- The token at a distance before the last one that was pulled and not yet taken. -/
def lookBack? (r : Reader) (distance : Nat) : Option Token :=
  r.buffer.reverse[distance]?

/-- The reader after taking the next token; at the end of the input nothing changes. -/
def drop (r : Reader) : Reader :=
  match r.buffer with
  | [] => r
  | _ :: rest => { r with buffer := rest, taken := r.taken + 1 }

end Reader

end Reckoner
