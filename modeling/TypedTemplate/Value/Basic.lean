/-
# `TypedTemplate.Value.Basic` — the values a template is rendered with

A `Value` is what the host passes in as context, and everything that can be reached
from it.  Whole numbers are 64-bit words, floats are IEEE doubles; an object keeps
the order of its fields.

Two values are the same if they are built alike from the same parts: floats are
compared as numbers, so a NaN is not even the same as itself and the two zeros are,
and the order of an object's fields does not count.
-/
import TypedTemplate.Fields

namespace TypedTemplate

/-- A value at render time. -/
inductive Value where
  | null
  | bool (b : Bool)
  | int (i : Int64)
  | float (x : Float)
  | string (s : String)
  | list (items : List Value)
  | object (fields : List (String × Value))

/-- The kinds of value, as errors speak of them. -/
inductive Kind where
  | null
  | bool
  | int
  | float
  | string
  | list
  | object
deriving Repr, DecidableEq

/-- A kind in writing. -/
def Kind.text : Kind → String
  | .null => "null"
  | .bool => "bool"
  | .int => "int"
  | .float => "float"
  | .string => "string"
  | .list => "list"
  | .object => "object"

namespace Value

instance : Inhabited Value := ⟨.null⟩

/-- The kind of a value. -/
def kind : Value → Kind
  | .null => .null
  | .bool _ => .bool
  | .int _ => .int
  | .float _ => .float
  | .string _ => .string
  | .list _ => .list
  | .object _ => .object

/-- Whether the value is null. -/
def isNull : Value → Bool
  | .null => true
  | _ => false

/-- A field of an object; other values have none. -/
def get? (name : String) : Value → Option Value
  | .object fields => Entries.get? name fields
  | _ => none

mutual

/-- Whether two values are the same. -/
def same : Value → Value → Bool
  | .null, .null => true
  | .bool a, .bool b => a == b
  | .int a, .int b => a == b
  | .float a, .float b => a == b
  | .string a, .string b => a == b
  | .list a, .list b => sameItems a b
  | .object a, .object b => a.length == b.length && sameFields a b
  | _, _ => false

/-- Whether two lists have the same values in the same order. -/
def sameItems : List Value → List Value → Bool
  | [], [] => true
  | a :: as, b :: bs => same a b && sameItems as bs
  | _, _ => false

/-- Whether every field of the first collection has the same value in the second. -/
def sameFields : List (String × Value) → List (String × Value) → Bool
  | [], _ => true
  | (name, a) :: rest, fields =>
    (match Entries.get? name fields with
      | some b => same a b
      | none => false) && sameFields rest fields

end

end Value

end TypedTemplate
