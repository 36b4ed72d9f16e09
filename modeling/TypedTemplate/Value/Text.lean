/-
# `TypedTemplate.Value.Text` — values in writing

The text that a value has when it is written into the output.  Null is the empty
text, so a missing value leaves no trace; a list is its items' texts in brackets,
which templates never write by themselves but a host callback may ask for.
-/
import TypedTemplate.Value.Basic
import TypedTemplate.Number.Decimal

namespace TypedTemplate.Value

/-- A whole number in writing. -/
def intText (i : Int64) : String := toString i.toInt

mutual

/-- A value in writing. -/
def text : Value → String
  | .null => ""
  | .bool b => if b then "true" else "false"
  | .int i => intText i
  | .float x => Number.floatText x
  | .string s => s
  | .list items => "[" ++ String.intercalate ", " (texts items) ++ "]"
  | .object _ => "[object]"

/-- The items of a list in writing. -/
def texts : List Value → List String
  | [] => []
  | v :: vs => text v :: texts vs

end

end TypedTemplate.Value
