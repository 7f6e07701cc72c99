import Reckoner.Scan.Error
import Reckoner.Token.Basic

/-!
# Errors of parsing

A program is refused at its first token that no program can have there, or for nesting too
deeply. A live text may also stop being readable while it is parsed. Tokens that were built by
hand may have values that cannot be used, and a token may be asked for where none is.
-/

namespace Reckoner

/-- What is wrong with a token. -/
inductive ParseProblem
  /-- A closing parenthesis without an opening one. -/
  | unexpectedClose
  /-- The input ends where more is needed. -/
  | unexpectedEnd
  /-- No program goes on with the token. -/
  | unexpectedToken (token : Token)
  /-- Nothing follows the keyword or the equals sign with the value. -/
  | expectedExpression (after : Value)
  /-- Nothing follows the operator with the value. -/
  | missingOperand (after : Value)
  /-- The parenthesis opened at the position is not closed. -/
  | neverClosed (opened : Position)
  /-- Parentheses are nested more deeply than the limit. -/
  | tooDeep
  deriving DecidableEq

/-- The wording of a problem. -/
def ParseProblem.text : ParseProblem → String
  | .unexpectedClose => "Unbalanced parentheses: unexpected ')'"
  | .unexpectedEnd => "Unexpected end of input"
  | .unexpectedToken token => "Unexpected token " ++ token.describe
  | .expectedExpression after => "Expected an expression after " ++ after.quoted
  | .missingOperand after => "Missing right-hand operand after " ++ after.quoted
  | .neverClosed opened =>
    "Unbalanced parentheses: '(' at line " ++ toString opened.line ++ ", col " ++
      toString opened.col ++ " is never closed"
  | .tooDeep => "Expression nested too deeply"

/-- A problem with the token that shows it. -/
structure ParseError where
  problem : ParseProblem
  token : Token
  deriving DecidableEq

namespace ParseError

/-- The error about a token that cannot stand where it stands. -/
def unexpected (token : Token) : ParseError :=
  match token.kind with
  | .closeParen => ⟨.unexpectedClose, token⟩
  | .endOfInput => ⟨.unexpectedEnd, token⟩
  | _ => ⟨.unexpectedToken token, token⟩

/-- The wording of an error, at the position of its token. -/
def diagnostic (e : ParseError) : Diagnostic :=
  ⟨e.problem.text, e.token.pos⟩

end ParseError

/-- Why parsing fails. -/
inductive ParseFailure
  /-- The text cannot be split into tokens. -/
  | scan (error : ScanError)
  /-- The tokens are no program. -/
  | parse (error : ParseError)
  /-- Parentheses are nested more deeply than the limit, in a statement not yet known. -/
  | tooDeep
  /-- A number token has a text that is no number. -/
  | notANumber (text : String)
  /-- A number token has an integer beyond the largest double. -/
  | integerTooLarge
  /-- A number token has no value. -/
  | valueMissing
  /-- No token waits at the negative offset. -/
  | nothingAt (offset : Int)
  deriving DecidableEq

namespace ParseFailure

/-- The diagnostic of a failure, if it is about the program. -/
def diagnostic? : ParseFailure → Option Diagnostic
  | .scan error => error.diagnostic?
  | .parse error => some error.diagnostic
  | _ => none

/-- The wording of a failure. -/
def message : ParseFailure → String
  | .scan error => error.message
  | .parse error => error.diagnostic.message
  | .tooDeep => ParseProblem.tooDeep.text
  | .notANumber text => "could not convert string to float: " ++ Text.quoted text
  | .integerTooLarge => "int too large to convert to float"
  | .valueMissing => "float() argument must be a string or a real number, not 'NoneType'"
  | .nothingAt offset => indexMessage offset "list index out of range"

end ParseFailure

end Reckoner
