import Reckoner.Text.Quoted

/-!
# JSON strings

A text between quotation marks in ASCII. Characters outside printable ASCII are written by their
UTF-16 units.
-/

namespace Reckoner.Text.Json

/-- One UTF-16 unit. -/
def unit (n : Nat) : List Char :=
  '\\' :: 'u' :: hexadecimal 4 n

/-- The UTF-16 units of a code point: one, or a pair of surrogates above the first plane. -/
def units (n : Nat) : List Char :=
  if n < 0x10000 then unit n
  else unit (0xD800 + (n - 0x10000) / 0x400) ++ unit (0xDC00 + (n - 0x10000) % 0x400)

/-- How a character is written inside a string. -/
def escaped (c : Char) : List Char :=
  if c == quotationMark then ['\\', quotationMark]
  else if c == '\\' then ['\\', '\\']
  else if c == '\n' then ['\\', 'n']
  else if c == '\r' then ['\\', 'r']
  else if c == '\t' then ['\\', 't']
  else if c == '\x08' then ['\\', 'b']
  else if c == '\x0c' then ['\\', 'f']
  else if 0x20 ≤ c.toNat ∧ c.toNat ≤ 0x7E then [c]
  else units c.toNat

/-- A text as a string. -/
def string (text : String) : String :=
  String.ofList (quotationMark :: text.toList.flatMap escaped ++ [quotationMark])

end Reckoner.Text.Json
