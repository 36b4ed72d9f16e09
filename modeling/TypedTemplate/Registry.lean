/-
# `TypedTemplate.Registry` — templates under their names

A registry compiles every template when it is added, with the options it was made
with, and keeps it under its name.  Adding a name again replaces its template; a
template that does not compile changes nothing.
-/
import TypedTemplate.Fields
import TypedTemplate.Template

namespace TypedTemplate

/-- Compiled templates by name. -/
structure Registry where
  config : Config := {}
  templates : Fields Template := .empty

/-- Why a registry cannot render a name. -/
inductive RegistryError where
  | notFound (name : String)
  | failed (error : Render.Error)

/-- The error in words. -/
def RegistryError.message : RegistryError → String
  | .notFound name => s!"template `{name}` is not registered"
  | .failed error => error.message

namespace Registry

/-- Compiles a template and keeps it. -/
def add (r : Registry) (name text : String) (context : ObjectTy) : Except Diagnostic Registry :=
  (Template.compile r.config (.ofString name text) context).map fun template =>
    { r with templates := r.templates.put name template }

/-- The template of a name. -/
def get? (r : Registry) (name : String) : Option Template := r.templates.get? name

/-- Whether there is a template of a name. -/
def contains (r : Registry) (name : String) : Bool := (r.get? name).isSome

/-- The names of all templates, in the order of their code points. -/
def names (r : Registry) : List String := r.templates.names.mergeSort fun a b => decide (a ≤ b)

/-- The text of a template for a context. -/
def render (r : Registry) (name : String) (context : Value) : Except RegistryError String :=
  match r.get? name with
  | none => .error (.notFound name)
  | some template => (template.render context).mapError .failed

end Registry

end TypedTemplate
