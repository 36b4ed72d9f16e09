/-
# `TypedTemplate.Render.Fault` — what can go wrong while a template is rendered

A template that compiles can still meet values that do not have the shape its types
promise, a null where a value is needed, or a host callback that fails.  An error
names the template and the place of the expression at which it was raised.
-/
import TypedTemplate.Render.Stack
import TypedTemplate.Text.Location
import TypedTemplate.Ty.Basic

namespace TypedTemplate.Render

/-- Why a rendering stops. -/
inductive Cause where
  | unbound (name : String)
  | missingField (name : String)
  | fieldOfNull (name : String)
  | fieldOf (name : String) (found : Kind)
  | callOnNull (method : String)
  | callbackFailed (method : String) (reason : String)
  | builtinMismatch (method : String) (expected : Ty) (found : Kind)
  | negationOf (found : Kind)
  | shape (expected : Ty) (found : Kind)
  | notIterable (found : Kind)
  | itemShape (index : Nat) (name : String) (expected : Ty) (found : Kind)
  | condition (found : Kind)
  | booleanAttribute (name : String) (found : Kind)

/-- A cause in words. -/
def Cause.text : Cause → String
  | unbound name => "variable `" ++ name ++ "` is not bound"
  | missingField name => "object has no field `" ++ name ++ "`"
  | fieldOfNull name => "cannot read field `" ++ name ++ "` of null"
  | fieldOf name found => "cannot read field `" ++ name ++ "` of " ++ found.text
  | callOnNull method => "cannot call `" ++ method ++ "()` on null"
  | callbackFailed method reason => "method `" ++ method ++ "()` failed: " ++ reason
  | builtinMismatch method expected found =>
    "cannot call `" ++ method ++ "()`: expected " ++ expected.text ++ ", found " ++ found.text
  | negationOf found => "expected bool, found " ++ found.text
  | shape expected found => "expected " ++ expected.text ++ ", found " ++ found.text
  | notIterable found => "cannot iterate over " ++ found.text
  | itemShape index name expected found =>
    "item " ++ toString index ++ " of `" ++ name ++ "`: expected " ++ expected.text ++
      ", found " ++ found.text
  | condition found => "condition must be bool, found " ++ found.text
  | booleanAttribute name found =>
    "attribute `" ++ name ++ "` expects bool, found " ++ found.text

/-- Why a rendering stopped, and where. -/
structure Error where
  cause : Cause
  template : String
  location : Location

/-- An error in full. -/
def Error.message (e : Error) : String :=
  e.cause.text ++ " (" ++ e.template ++ ":" ++ e.location.text ++ ")"

end TypedTemplate.Render

namespace TypedTemplate.Stack

/-- An error at a place of the template that is being rendered. -/
def error {α : Type} (s : Stack) (location : Location) (cause : Render.Cause) :
    Except Render.Error α := .error ⟨cause, s.template, location⟩

end TypedTemplate.Stack
