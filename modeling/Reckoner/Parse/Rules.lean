import Reckoner.Number.Reading
import Reckoner.Parse.Basic
import Reckoner.Tree.Basic

/-!
# Rules of the grammar

The language is parsed by one rule per tier, from the loosest operators to the tightest:

    program    = { terminator } { statement ( terminator { terminator } | end ) }
    statement  = print expression | name "=" expression | expression
    expression = term { ( "+" | "-" ) term }
    term       = factor { ( "*" | "/" ) factor }
    factor     = suffixed { "^" suffixed }
    suffixed   = primary { "!" }
    primary    = number | name | "(" expression ")"

Operators of one tier group to the left. Rules below `expression` take the rule for what stands
in parentheses as an argument, so that only parentheses nest; how deeply is limited. Loops run as
long as tokens are left.
-/

namespace Reckoner

namespace Parse

/-! ## Expressions -/

/-- Runs a rule unless the statement or the input ends, which is the given problem. -/
def unlessEnd (problem : ParseProblem) (rule : Parse Tree) : Parse Tree := do
  let token ← current
  if token.kind.isEnd then reject ⟨problem, token⟩ else rule

/-- The operators of the loosest tier. -/
def additive? : Token.Kind → Option Operator
  | .plus => some .plus
  | .minus => some .minus
  | _ => none

/-- The operators of the middle tier. -/
def multiplicative? : Token.Kind → Option Operator
  | .star => some .times
  | .slash => some .over
  | _ => none

/-- The operator of the tightest tier. -/
def exponential? : Token.Kind → Option Operator
  | .caret => some .power
  | _ => none

/-- Extends a left operand by operators and right operands, as long as operators follow. -/
def chain (operator? : Token.Kind → Option Operator) (operand : Parse Tree) :
    Nat → Tree → Parse Tree
  | 0, left => return left
  | n + 1, left => do
    let token ← current
    match operator? token.kind with
    | none => return left
    | some op => do
      let _ ← advance
      let right ← unlessEnd (.missingOperand token.value) operand
      chain operator? operand n (.binary token.pos op left right)

/-- Operands joined by the operators of one tier, grouped to the left. -/
def tier (operator? : Token.Kind → Option Operator) (operand : Parse Tree) : Parse Tree := do
  let left ← operand
  chain operator? operand (← fuel) left

/-- Extends an operand by the factorial marks that follow. -/
def bangs : Nat → Tree → Parse Tree
  | 0, operand => return operand
  | n + 1, operand => do
    match ← accept [.bang] with
    | none => return operand
    | some bang => bangs n (.factorial bang.pos operand)

/-- The number that a value stands for. -/
def numberOf : Value → Except ParseFailure Float
  | .number content => .ok content
  | .text content =>
    match Number.written? content with
    | some number => .ok number
    | none => .error (.notANumber content)
  | .integer content =>
    match Number.ofInt? content with
    | some number => .ok number
    | none => .error .integerTooLarge
  | .truth content => .ok (if content then 1 else 0)
  | .absent => .error .valueMissing

/-- An expression in parentheses. -/
def group (nested : Parse Tree) : Parse Tree := do
  let opening ← expect [.openParen]
  let inner ← nested
  match ← accept [.closeParen] with
  | some _ => return .group opening.pos inner
  | none =>
    let token ← current
    if token.kind.isEnd then reject ⟨.neverClosed opening.pos, token⟩
    else reject (.unexpected token)

/-- A number, a name or a group. -/
def primary (nested : Parse Tree) : Parse Tree := do
  let token ← current
  match token.kind with
  | .number => do
    let _ ← advance
    match numberOf token.value with
    | .ok number => return .number token.pos number
    | .error failure => fail failure
  | .name => do
    let _ ← advance
    return .name token.pos token.value.display
  | .openParen => group nested
  | _ => reject (.unexpected token)

/-- A primary with factorial marks. -/
def suffixed (nested : Parse Tree) : Parse Tree := do
  let operand ← primary nested
  bangs (← fuel) operand

/-- Powers. -/
def factor (nested : Parse Tree) : Parse Tree :=
  tier exponential? (suffixed nested)

/-- Products and quotients. -/
def term (nested : Parse Tree) : Parse Tree :=
  tier multiplicative? (factor nested)

/-- Sums and differences. -/
def sum (nested : Parse Tree) : Parse Tree :=
  tier additive? (term nested)

/-- An expression in which parentheses may still nest to the given depth, itself counted. -/
def within : Nat → Parse Tree
  | 0 => fail .tooDeep
  | depth + 1 => sum (within depth)

/-- The number of parentheses that may be open at once. -/
def nestingLimit : Nat := 200

/-- What stands in the outermost parentheses. -/
def nested : Parse Tree :=
  within nestingLimit

/-- An expression. -/
def expression : Parse Tree :=
  within (nestingLimit + 1)

/-! ## Statements -/

/-- A print statement. -/
def printing : Parse Tree := do
  let keyword ← expect [.print]
  let body ← unlessEnd (.expectedExpression keyword.value) expression
  return .print keyword.pos body

/-- An assignment. -/
def assignment : Parse Tree := do
  let target ← expect [.name]
  let sign ← expect [.assign]
  let body ← unlessEnd (.expectedExpression sign.value) expression
  return .assign target.pos target.value.display body

/-- A statement that is an expression. -/
def bare : Parse Tree := do
  let body ← expression
  return .bare body.pos body

/-- A statement. A name starts an assignment if an equals sign follows it. -/
def statement : Parse Tree := do
  let token ← current
  match token.kind with
  | .print => printing
  | .name => do
    let following ← peek 1
    if following.kind = .assign then assignment else bare
  | _ => bare

/-! ## Programs -/

/-- Takes the terminators that follow. -/
def terminators : Nat → Parse Unit
  | 0 => return ()
  | n + 1 => do
    match ← accept [.terminator] with
    | some _ => terminators n
    | none => return ()

/-- Statements up to the end of the input. -/
def statements : Nat → Parse (List Tree)
  | 0 => return []
  | n + 1 => do
    terminators (← fuel)
    let start ← current
    if start.kind = .endOfInput then return []
    else do
      let first ← ifTooDeep statement (.parse ⟨.tooDeep, start⟩)
      record (.parsed first.kind first.pos)
      let following ← current
      if following.kind ≠ .endOfInput then
        let _ ← expect [.terminator]
      return first :: (← statements n)

/-- A whole program. -/
def program : Parse (List Tree) := do
  statements (← fuel)

end Parse

/-- The statements of a list of tokens. -/
def parseTokens (tokens : List Token) : Except ParseFailure (List Tree) :=
  (Parse.program (Reader.ofTokens tokens)).1

/-- The statements of a text, and what was recorded while they were parsed. -/
def parseSource (source : String) : Except ParseFailure (List Tree) × Array Event :=
  let (outcome, reader) := Parse.program (Reader.ofSource source)
  (outcome, reader.trail.map Entry.event)

end Reckoner
