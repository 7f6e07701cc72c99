import Reckoner.Position
import Reckoner.Token.Value

/-!
# Tokens

A token has a kind, a value, the position of its first character and the number of characters it
spans. Kinds have labels, under which they are shown and may be asked for.
-/

namespace Reckoner

namespace Token

/-- The kinds of tokens. The scanner produces all but the last two. -/
inductive Kind
  | number
  | name
  | print
  | plus
  | minus
  | star
  | slash
  | caret
  | openParen
  | closeParen
  | assign
  | bang
  /-- The end of a statement: a semicolon or a newline. -/
  | terminator
  /-- The end of the input. -/
  | endOfInput
  /-- A kind that the language does not know. -/
  | other (label : String)
  deriving DecidableEq, Repr

namespace Kind

/-- The kinds that the language knows. -/
def known : List Kind :=
  [.number, .name, .print, .plus, .minus, .star, .slash, .caret, .openParen, .closeParen,
    .assign, .bang, .terminator, .endOfInput]

/-- The label of a kind. -/
def label : Kind → String
  | .number => "NUMBER"
  | .name => "IDENT"
  | .print => "PRINT"
  | .plus => "PLUS"
  | .minus => "MINUS"
  | .star => "STAR"
  | .slash => "SLASH"
  | .caret => "CARET"
  | .openParen => "LPAREN"
  | .closeParen => "RPAREN"
  | .assign => "ASSIGN"
  | .bang => "BANG"
  | .terminator => "END"
  | .endOfInput => "EOF"
  | .other label => label

/-- The kind with the given label. -/
def ofLabel (label : String) : Kind :=
  (known.find? fun kind => kind.label == label).getD (.other label)

/-- Whether a token of this kind ends a statement or the whole input. -/
def isEnd (kind : Kind) : Bool :=
  kind == .terminator || kind == .endOfInput

end Kind

end Token

/-- A piece of the input. -/
structure Token where
  kind : Token.Kind
  value : Value
  pos : Position
  /-- Number of characters spanned. -/
  length : Int
  deriving DecidableEq

namespace Token

/-- A token that spans as many characters as its value has. -/
def ofValue (kind : Kind) (value : Value) (pos : Position) : Token :=
  ⟨kind, value, pos, value.display.length⟩

/-- The column right after the token. -/
def endCol (token : Token) : Int :=
  token.pos.col + token.length

/-- The token in words, with its value unquoted. -/
def describe (token : Token) : String :=
  "Token(" ++ token.kind.label ++ ", " ++ token.value.display ++ ")"

/-- Whether two tokens have the same kind, value and position; the length does not count. -/
def same (a b : Token) : Bool :=
  a.kind == b.kind && a.value.same b.value && a.pos == b.pos

/-- The tokens without those that are the same as an earlier one. -/
def distinct (tokens : List Token) : List Token :=
  tokens.foldl (fun seen token => if seen.any token.same then seen else seen ++ [token]) []

end Token

end Reckoner
