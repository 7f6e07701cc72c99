import Reckoner.Tree.Basic
import Reckoner.Text.Json

/-!
# Texts of trees

A tree has two texts. Its *description* is one line with kinds, values and children. Its *record*
is JSON with one field per line, which also gives the positions.
-/

namespace Reckoner.Tree

/-! ## Descriptions -/

/-- A tree in one line. -/
def describe : Tree → String :=
  fold fun t parts =>
    let value :=
      match t.value with
      | .absent => ""
      | value => ", value=" ++ value.quoted
    let children :=
      if parts.isEmpty then "" else ", children=[" ++ ", ".intercalate parts ++ "]"
    "ASTNode(" ++ t.kind ++ value ++ children ++ ")"

/-! ## Records -/

/-- Number of blanks by which each level is indented. -/
def indentStep : Nat := 2

/-- The blanks at the start of a line. -/
def indent (width : Nat) : String :=
  String.ofList (List.replicate width ' ')

/-- A number in a record: its full text, with other spellings where it is not finite. -/
def recordNumber (x : Float) : String :=
  match Number.Binary.ofFloat x with
  | .nan => "NaN"
  | .infinite negative => if negative then "-Infinity" else "Infinity"
  | .finite .. => Number.fullText x

/-- A value in a record. -/
def recordValue : Value → String
  | .absent => "null"
  | .text content => Text.Json.string content
  | .number content => recordNumber content
  | .integer content => toString content
  | .truth true => "true"
  | .truth false => "false"

/-- A list in a record: an item per line between brackets, which stand at the given width. -/
def recordList (width : Nat) (items : List String) : String :=
  if items.isEmpty then "[]"
  else
    "[\n" ++ ",\n".intercalate (items.map fun item => indent (width + indentStep) ++ item)
      ++ "\n" ++ indent width ++ "]"

/-- The record of a tree whose braces stand at the given width. -/
def record : Tree → Nat → String :=
  fold fun t records width =>
    let inside := width + indentStep
    let field (key text : String) : String :=
      indent inside ++ Text.Json.string key ++ ": " ++ text
    let fields := [
      field "kind" (Text.Json.string t.kind),
      field "value" (recordValue t.value),
      field "line" (toString t.pos.line),
      field "col" (toString t.pos.col),
      field "children" (recordList inside (records.map fun item => item (inside + indentStep)))]
    "\x7b\n" ++ ",\n".intercalate fields ++ "\n" ++ indent width ++ "\x7d"

/-- The greatest height of a tree that is put into a record. -/
def recordHeight : Nat := 480

/-- The records of a list of trees, or nothing if one of them is too high. -/
def records? (trees : List Tree) : Option String :=
  if trees.all fun t => decide (t.height ≤ recordHeight) then
    some (recordList 0 (trees.map fun t => t.record indentStep))
  else
    none

end Reckoner.Tree
