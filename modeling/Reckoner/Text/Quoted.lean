import Reckoner.Text.Printable

/-!
# Quoted text

A text inside quotes on one line. Apostrophes are the quotes, unless the text holds an apostrophe
and no quotation mark. The quote, the backslash and line controls are escaped by a backslash, and
what is not printable is shown by its code point.
-/

namespace Reckoner.Text

/-- The apostrophe, the usual quote. -/
def apostrophe : Char := '\x27'

/-- The quotation mark, the other quote. -/
def quotationMark : Char := '\x22'

/-- A number in lower-case hexadecimal with at least the given number of digits. -/
def hexadecimal (width n : Nat) : List Char :=
  let digits := Nat.toDigits 16 n
  List.replicate (width - digits.length) '0' ++ digits

/-- The shortest escape that holds a code point. -/
def codeEscape (n : Nat) : List Char :=
  if n < 0x100 then '\\' :: 'x' :: hexadecimal 2 n
  else if n < 0x10000 then '\\' :: 'u' :: hexadecimal 4 n
  else '\\' :: 'U' :: hexadecimal 8 n

/-- How a character is shown between the given quotes. -/
def escaped (quote c : Char) : List Char :=
  if c == quote || c == '\\' then ['\\', c]
  else if c == '\n' then ['\\', 'n']
  else if c == '\r' then ['\\', 'r']
  else if c == '\t' then ['\\', 't']
  else if isPrintable c then [c]
  else codeEscape c.toNat

/-- The quote that is used around a text. -/
def quoteFor (cs : List Char) : Char :=
  if cs.contains apostrophe && !cs.contains quotationMark then quotationMark else apostrophe

/-- A text between quotes. -/
def quotedChars (cs : List Char) : List Char :=
  let quote := quoteFor cs
  quote :: cs.flatMap (escaped quote) ++ [quote]

/-- A text between quotes. -/
def quoted (text : String) : String :=
  String.ofList (quotedChars text.toList)

end Reckoner.Text
