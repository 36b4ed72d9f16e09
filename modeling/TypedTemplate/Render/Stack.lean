/-
# `TypedTemplate.Render.Stack` — the names a rendering can use, with their values

The stack of a rendering has the context at its root and above it one scope for each
loop that is being run, innermost first.  A scope is opened before its loop has an
item to bind, and its name stands for null until then.
-/
import TypedTemplate.Value.Basic

namespace TypedTemplate

/-- The values in scope while a template is rendered. -/
structure Stack where
  /-- The template's name, for errors. -/
  template : String
  /-- The context. -/
  root : Value
  /-- The loop scopes, innermost first. -/
  scopes : List (String × Value) := []

namespace Stack

/-- The value that the innermost scope of a name gives it. -/
def lookup? (s : Stack) (name : String) : Option Value := s.scopes.lookup name

/-- Opens a scope; its name stands for null until it is set. -/
def push (s : Stack) (name : String) : Stack := { s with scopes := (name, .null) :: s.scopes }

/-- Sets the value of the innermost scope. -/
def set (s : Stack) (value : Value) : Stack :=
  match s.scopes with
  | [] => s
  | (name, _) :: outer => { s with scopes := (name, value) :: outer }

/-- Closes the innermost scope. -/
def pop (s : Stack) : Stack := { s with scopes := s.scopes.drop 1 }

/-- The number of open scopes. -/
def depth (s : Stack) : Nat := s.scopes.length

end Stack

end TypedTemplate
