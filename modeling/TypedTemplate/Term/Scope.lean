/-
# `TypedTemplate.Term.Scope` — the names an expression may use, with their types

A scope is the type of the context together with the bindings of the loops around
the expression, innermost first.  A binding hides outer bindings and fields of the
context that have its name.
-/
import TypedTemplate.Ty.Basic

namespace TypedTemplate

/-- The names in scope at some place of a template. -/
structure Scope where
  root : ObjectTy
  /-- The loop bindings, innermost first. -/
  bindings : List (String × Ty) := []

namespace Scope

/-- The scope inside a loop. -/
def bind (s : Scope) (name : String) (type : Ty) : Scope :=
  { s with bindings := (name, type) :: s.bindings }

/-- The type that the innermost binding of a name gives it. -/
def lookup? (s : Scope) (name : String) : Option Ty := s.bindings.lookup name

/-- The list without the elements that occurred before. -/
def firsts : List String → List String
  | [] => []
  | name :: names => name :: (firsts names).filter (· != name)

/-- All names in scope, loop bindings first, each once. -/
def names (s : Scope) : List String := firsts (s.bindings.map Prod.fst ++ s.root.fields.names)

end Scope

end TypedTemplate
