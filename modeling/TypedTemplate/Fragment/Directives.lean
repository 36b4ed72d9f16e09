/-
# `TypedTemplate.Fragment.Directives` — what an element's dynamic attributes ask for

Four directives control their element: `for` repeats it, `if` makes it depend on a
condition, `text` and `html` replace its content.  Each may be given once, and not
both of the last two.  Every other dynamic attribute is an attribute of the output
whose value is an expression; the value of a boolean one is not written but decides
whether the name is.
-/
import TypedTemplate.Config
import TypedTemplate.Markup.Document
import TypedTemplate.Term.Resolve

namespace TypedTemplate

open Markup

/-- The directives that control their element. -/
inductive Control where
  | loop
  | condition
  | text
  | html
deriving Repr, DecidableEq

/-- The controlling directive of a name. -/
def Control.ofName? (name : String) : Option Control :=
  if name = "for" then some .loop
  else if name = "if" then some .condition
  else if name = "text" then some .text
  else if name = "html" then some .html
  else none

/-- The attributes whose presence alone says that something holds. -/
def booleanAttributes : List String := [
  "checked", "selected", "disabled", "readonly", "multiple", "hidden", "required", "autofocus"]

namespace Markup.Attribute

/-- The span of the value, or of the name if there is none. -/
def valueSpan (a : Attribute) : Span := a.valueSpan?.getD a.span

/-- The value of an attribute as an expression. -/
def excerpt (a : Attribute) : Excerpt := ⟨a.valueSpan.start, (a.text?.getD "").toList⟩

/-- The controlling directive that an attribute gives. -/
def control? (config : Config) (a : Attribute) : Option Control :=
  if a.dynamic then (config.directive? a.name).bind Control.ofName? else none

end Markup.Attribute

/-- The attributes that control an element. -/
structure Directives where
  loop : Option Attribute := none
  condition : Option Attribute := none
  text : Option Attribute := none
  html : Option Attribute := none

namespace Directives

/-- The attribute that gives a directive. -/
def get? (ds : Directives) : Control → Option Attribute
  | .loop => ds.loop
  | .condition => ds.condition
  | .text => ds.text
  | .html => ds.html

/-- Takes an attribute for a directive. -/
def set (ds : Directives) (control : Control) (a : Attribute) : Directives :=
  match control with
  | .loop => { ds with loop := some a }
  | .condition => { ds with condition := some a }
  | .text => { ds with text := some a }
  | .html => { ds with html := some a }

/-- Adds the directives of some attributes; one that is given already is at fault. -/
def gather (config : Config) (element : String) (ds : Directives) :
    List Attribute → Except ExprFault Directives
  | [] => .ok ds
  | a :: rest =>
    match a.control? config with
    | none => gather config element ds rest
    | some control =>
      match ds.get? control with
      | some _ => refuse a.span (.duplicateDirective a.name element)
      | none => gather config element (ds.set control a) rest

/-- The directives of an element. -/
def ofElement (config : Config) (e : Element) : Except ExprFault Directives := do
  let ds ← gather config e.name {} e.attributes
  match ds.text, ds.html with
  | some _, some html => refuse html.span (.textAndHtml e.name)
  | _, _ => return ds

/-- The attribute that replaces the content, and what its value goes through. -/
def content? (config : Config) (ds : Directives) : Option (Attribute × Text.Escaping) :=
  match ds.text, ds.html with
  | some text, _ => some (text, config.escaping)
  | none, some html => some (html, .disabled)
  | none, none => none

end Directives

end TypedTemplate
