import Reckoner.Text.Ranges

/-!
# Blank characters

The white space that is trimmed from both ends of a line typed in a session, and trimming as such.
-/

namespace Reckoner.Text

/-- Code points of white space, the four information separators included. -/
def blankRanges : Ranges :=
  [
    (0x9, 0xd), (0x1c, 0x20), (0x85, 0x85), (0xa0, 0xa0),
    (0x1680, 0x1680), (0x2000, 0x200a), (0x2028, 0x2029), (0x202f, 0x202f),
    (0x205f, 0x205f), (0x3000, 0x3000)]

/-- Whether a character is white space. -/
def isBlank (c : Char) : Bool :=
  blankRanges.contains c.toNat

/-- A list of characters without those of a class at either end. -/
def trimBy (p : Char → Bool) (cs : List Char) : List Char :=
  ((cs.dropWhile p).reverse.dropWhile p).reverse

/-- A list of characters without the blanks at either end. -/
def trim (cs : List Char) : List Char :=
  trimBy isBlank cs

end Reckoner.Text
