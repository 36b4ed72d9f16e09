/-
# `TypedTemplate.Fragment.Render` — writing a fragment

Rendering appends to an output and works on a stack; an `Outcome` is what they are
afterwards, together with the error if there was one.  Output that was written
before an error stays.  A fragment that writes a value finds the value first and
writes it whole or not at all.
-/
import TypedTemplate.Fragment.Basic
import TypedTemplate.Term.Eval
import TypedTemplate.Value.Text

namespace TypedTemplate

/-- What a rendering leaves behind. -/
structure Outcome where
  out : String
  stack : Stack
  error : Option Render.Error

namespace Outcome

/-- Nothing went wrong. -/
def done (stack : Stack) (out : String) : Outcome := ⟨out, stack, none⟩

/-- Something went wrong. -/
def failed (stack : Stack) (out : String) (error : Render.Error) : Outcome := ⟨out, stack, some error⟩

/-- What comes next, unless something went wrong. -/
def andThen (o : Outcome) (next : Stack → String → Outcome) : Outcome :=
  match o.error with
  | none => next o.stack o.out
  | some _ => o

/-- What is done with a value that may not have been found. -/
def withValue (found : Except Render.Error Value) (stack : Stack) (out : String)
    (use : Value → Outcome) : Outcome :=
  match found with
  | .ok value => use value
  | .error error => failed stack out error

end Outcome

namespace Fragment

/-- What is written for an attribute with some value: nothing for null, the bare name for a
boolean attribute that holds, the name and the escaped value otherwise. -/
def attributeText (name : String) (boolean : Bool) (escaping : Text.Escaping) :
    Value → Except Render.Cause String
  | .null => .ok ""
  | value =>
    if boolean then
      match value with
      | .bool true => .ok (" " ++ name)
      | .bool false => .ok ""
      | other => .error (.booleanAttribute name other.kind)
    else .ok (Text.write escaping (" " ++ name ++ "=\"") value.text ++ "\"")

/-- Runs a loop's body once for each item, the items numbered from `index` on. -/
def iterate (head : Loop) (body : Stack → String → Outcome) (index : Nat) :
    List Value → Stack → String → Outcome
  | [], stack, out => .done stack out
  | item :: items, stack, out =>
    if item.conforms head.element then
      (body (stack.set item) out).andThen (iterate head body (index + 1) items)
    else
      .failed stack out
        ⟨.itemShape index head.name head.element item.kind, stack.template, head.list.location⟩

/-- Runs a loop's body once for each item of a value, in a scope of its own. -/
def iterateOver (head : Loop) (body : Stack → String → Outcome) (stack : Stack) (out : String) :
    Value → Outcome
  | .list items =>
    let o := iterate head body 0 items (stack.push head.name) out
    { o with stack := o.stack.pop }
  | other => .failed stack out ⟨.notIterable other.kind, stack.template, head.list.location⟩

/-- Runs a body if a value is true. -/
def onlyIf (condition : Term) (body : Stack → String → Outcome) (stack : Stack) (out : String) :
    Value → Outcome
  | .bool true => body stack out
  | .bool false => .done stack out
  | other => .failed stack out ⟨.condition other.kind, stack.template, condition.location⟩

mutual

/-- Renders a fragment. -/
def render : Fragment → Stack → String → Outcome
  | .static content, stack, out => .done stack (out ++ content)
  | .interpolation term escaping, stack, out =>
    .withValue (term.conforming stack) stack out fun value =>
      .done stack (Text.write escaping out value.text)
  | .attribute name term boolean escaping, stack, out =>
    .withValue (term.conforming stack) stack out fun value =>
      match attributeText name boolean escaping value with
      | .ok text => .done stack (out ++ text)
      | .error cause => .failed stack out ⟨cause, stack.template, term.location⟩
  | .sequence parts, stack, out => renderAll parts stack out
  | .loop head body, stack, out =>
    .withValue (head.list.eval stack) stack out (iterateOver head (render body) stack out)
  | .conditional condition body, stack, out =>
    .withValue (condition.eval stack) stack out (onlyIf condition (render body) stack out)
termination_by structural fragment => fragment

/-- Renders some fragments one after another. -/
def renderAll : List Fragment → Stack → String → Outcome
  | [], stack, out => .done stack out
  | fragment :: rest, stack, out => (render fragment stack out).andThen (renderAll rest)
termination_by structural fragments => fragments

end

end Fragment

end TypedTemplate
