import Reckoner.Number.Display
import Reckoner.Text.Quoted

/-!
# Values of tokens and trees

The scanner and the parser give tokens and trees a text, such as a name or an operator, a number,
or no value at all. Tokens and trees that are built by hand may also carry integers and truth
values. Integers, truth values and numbers are compared by what they stand for, without rounding.
-/

namespace Reckoner

/-- What a token or a tree carries. -/
inductive Value
  /-- No value. -/
  | absent
  | text (content : String)
  | number (content : Float)
  | integer (content : Int)
  | truth (content : Bool)
  deriving DecidableEq

namespace Value

/-- The value with its kind visible: a text is quoted, a number is its full text. -/
def quoted : Value → String
  | .absent => "None"
  | .text content => Text.quoted content
  | .number content => Number.fullText content
  | .integer content => toString content
  | .truth true => "True"
  | .truth false => "False"

/-- The value as it stands: a text is itself, and nothing else has quotes. -/
def display : Value → String
  | .text content => content
  | value => value.quoted

/-- The integer that an integer or a truth value stands for. -/
def integer? : Value → Option Int
  | .integer content => some content
  | .truth true => some 1
  | .truth false => some 0
  | _ => none

/-- Whether two values are both absent, the same text, or the same number. The two zeros are the
same; what is not a number is not even the same as itself. -/
def same : Value → Value → Bool
  | .absent, .absent => true
  | .text a, .text b => a == b
  | .number a, .number b => a == b
  | .number a, b => b.integer?.isSome && (Number.Binary.ofFloat a).whole? == b.integer?
  | a, .number b => a.integer?.isSome && a.integer? == (Number.Binary.ofFloat b).whole?
  | a, b => a.integer?.isSome && a.integer? == b.integer?

end Value

end Reckoner
