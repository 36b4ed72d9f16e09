/-
# `TypedTemplate.Fault` — a cause and the place it concerns

Every stage of compiling fails with a fault: what is wrong, as a cause of the
stage's own kind, and the span of the template that it is wrong about.  The words
that a cause is reported in belong to the cause and are not used to tell one fault
from another.
-/
import TypedTemplate.Text.Span

namespace TypedTemplate

/-- What is wrong, and where. -/
structure Fault (Cause : Type) where
  cause : Cause
  span : Span
deriving Repr

end TypedTemplate
