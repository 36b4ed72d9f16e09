/-
# `TypedTemplate.Value.Shape` — values that have the shape of a type

A value conforms to a type if it looks like one of that type as far down as lists
go.  Null conforms to every type.  Any object conforms to any object type: its
fields are looked at when they are read, one by one.
-/
import TypedTemplate.Ty.Basic

namespace TypedTemplate.Value

mutual

/-- Whether a value has the shape of a type. -/
def conforms : Value → Ty → Bool
  | .null, _ => true
  | .bool _, .bool => true
  | .int _, .int => true
  | .float _, .float => true
  | .string _, .string => true
  | .object _, .object _ => true
  | .list items, .list element => allConform items element
  | _, _ => false

/-- Whether every item has the shape of a type. -/
def allConform : List Value → Ty → Bool
  | [], _ => true
  | v :: vs, element => conforms v element && allConform vs element

end

/-- All items have the shape of a type if each has. -/
theorem allConform_iff {vs : List Value} {τ : Ty} :
    allConform vs τ = true ↔ ∀ v ∈ vs, v.conforms τ = true := by
  induction vs with
  | nil => simp [allConform]
  | cons v vs ih => simp [allConform, ih]

end TypedTemplate.Value
