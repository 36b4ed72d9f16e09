/-
# `TypedTemplate.Template` — templates, compiled once and rendered often

`Template.compile` reads a template and checks every dynamic part of it against the
type of the context; a template that compiles has no fault left that could be found
without a value.  `Template.render` writes it for one context.  Nothing of a rendering
stays behind in the template.
-/
import TypedTemplate.Fragment.Compile
import TypedTemplate.Fragment.Render
import TypedTemplate.Markup.Parse

namespace TypedTemplate

/-- A compiled template. -/
structure Template where
  source : Source
  /-- The type of the context. -/
  context : ObjectTy
  fragment : Fragment

namespace Template

/-- The name of a template. -/
def name (t : Template) : String := t.source.name

/-- Reads and checks a template. -/
def check (config : Config) (source : Source) (context : ObjectTy) :
    Except CompileError Template := do
  let document ← Markup.Document.read config source
  match Compiler.compile ⟨config, source⟩ context document with
  | .ok fragment => return ⟨source, context, fragment⟩
  | .error fault => throw (.expression fault)

/-- Reads and checks a template; a fault is reported with its place. -/
def compile (config : Config) (source : Source) (context : ObjectTy) :
    Except Diagnostic Template :=
  (check config source context).mapError source.diagnose

/-- Writes a template after `out`; on an error, what was written before it stays. -/
def renderTo (t : Template) (out : String) (context : Value) : Outcome :=
  t.fragment.render ⟨t.name, context, []⟩ out

/-- The text of a template for a context. -/
def render (t : Template) (context : Value) : Except Render.Error String :=
  let o := t.renderTo "" context
  match o.error with
  | none => .ok o.out
  | some error => .error error

end Template

end TypedTemplate
