/-
# `TypedTemplate.Diagnostic` — why a template does not compile

A template is refused while its text is divided into tokens, while the tokens are
made into a tree, or while its expressions are checked.  A `Diagnostic` adds to the
fault the template's name and the line and column at which the fault's span begins,
so that its message says by itself where to look.
-/
import TypedTemplate.Expr.Fault
import TypedTemplate.Fault
import TypedTemplate.Markup.Fault
import TypedTemplate.Text.Location

namespace TypedTemplate

/-- A fault of any stage of compiling. -/
inductive CompileError where
  | lexical (fault : Fault Markup.LexicalCause)
  | structural (fault : Fault Markup.StructuralCause)
  | expression (fault : Fault Expr.Cause)

namespace CompileError

/-- The fault in words. -/
def text : CompileError → String
  | lexical fault => fault.cause.text
  | structural fault => fault.cause.text
  | expression fault => fault.cause.text

/-- Where the fault is. -/
def span : CompileError → Span
  | lexical fault => fault.span
  | structural fault => fault.span
  | expression fault => fault.span

/-- What would have been understood, where that can be listed. -/
def help : CompileError → Option String
  | expression fault => fault.cause.help
  | _ => none

end CompileError

/-- A fault together with the template and the place it was found at. -/
structure Diagnostic where
  error : CompileError
  template : String
  location : Location

/-- A diagnostic in full. -/
def Diagnostic.message (d : Diagnostic) : String :=
  d.error.text ++ " (" ++ d.template ++ ":" ++ d.location.text ++ ")"

/-- The diagnostic of an error in this source. -/
def Source.diagnose (source : Source) (error : CompileError) : Diagnostic :=
  ⟨error, source.name, source.location error.span.start⟩

end TypedTemplate
