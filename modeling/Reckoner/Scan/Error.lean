import Reckoner.Position
import Reckoner.Text.Quoted

/-!
# Errors of reading text

Text that cannot be split into tokens is reported at the first character of the piece that is
wrong. Reading where there is no character is an error of its own.
-/

namespace Reckoner

/-- The wording for an index at which nothing stands. Below what 64 bits can hold it has a wording
of its own, instead of the usual one. -/
def indexMessage (index : Int) (usual : String) : String :=
  if index < -9223372036854775808 then "cannot fit 'int' into an index-sized integer" else usual

/-- Why reading text fails. -/
inductive ScanError
  /-- A character was asked for at or past the end of the text. -/
  | pastEnd (position line : Int)
  /-- A character was asked for too far before the end of the text. -/
  | outOfRange (position : Int)
  /-- The text at the position starts like a number and is none. -/
  | malformedNumber (spelling : String) (pos : Position)
  /-- The character at the position starts no token. -/
  | unexpectedCharacter (character : Char) (pos : Position)
  deriving DecidableEq, Repr

namespace ScanError

/-- The diagnostic of an error about tokens; errors of reading single characters have none. -/
def diagnostic? : ScanError → Option Diagnostic
  | .malformedNumber spelling pos => some ⟨"Malformed number '" ++ spelling ++ "'", pos⟩
  | .unexpectedCharacter character pos =>
    some ⟨"Unexpected character " ++ Text.quoted (String.singleton character), pos⟩
  | .pastEnd .. => none
  | .outOfRange _ => none

/-- The wording of an error. -/
def message (e : ScanError) : String :=
  match e with
  | .pastEnd position line =>
    "Attempted to read past end of source at position=<" ++ toString position ++ ">, line=<" ++
      toString line ++ ">"
  | .outOfRange position => indexMessage position "string index out of range"
  | .malformedNumber .. => (e.diagnostic?.map Diagnostic.message).getD ""
  | .unexpectedCharacter .. => (e.diagnostic?.map Diagnostic.message).getD ""

end ScanError

end Reckoner
