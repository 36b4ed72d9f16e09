/-
# `TypedTemplate.Proofs.Render.Interpret` — what a document means

Rendering goes through fragments, which were compiled once.  This is the same thing said
without them: an interpreter that walks the tree of the template and writes as it goes.
It has no scopes to compile in and no stack to run on but an environment (`Env`), the
context and the loop bindings around a place, each with its type and its value; an
expression is read where it stands, every time that it is met.

An element is written as its tag, its content and its end tag; around that comes its
condition, and around both its loop.  What the compiler would have refused the interpreter
only finds out about when it gets there (`Stop.refused`).

The checks that a rendering makes are part of the meaning: a value is compared with its
static type where it is about to be written, an item with the element type of its list.
-/
import TypedTemplate.Proofs.Render.Written
import TypedTemplate.Template

namespace TypedTemplate

open Markup

/-! ## Environments -/

/-- A loop variable, with its type and the item that it stands for. -/
structure Binding where
  name : String
  type : Ty
  value : Value

/-- What expressions are read and evaluated in. -/
structure Env where
  /-- The type of the context. -/
  type : ObjectTy
  /-- The context. -/
  context : Value
  /-- The loop variables, innermost first. -/
  bindings : List Binding := []

namespace Env

/-- The types of an environment. -/
def scope (env : Env) : Scope := ⟨env.type, env.bindings.map fun b => (b.name, b.type)⟩

/-- The values of an environment. -/
def stack (template : String) (env : Env) : Stack :=
  ⟨template, env.context, env.bindings.map fun b => (b.name, b.value)⟩

/-- The environment of an iteration. -/
def bind (env : Env) (name : String) (type : Ty) (value : Value) : Env :=
  { env with bindings := ⟨name, type, value⟩ :: env.bindings }

end Env

/-- Why the interpreter stops. -/
inductive Stop where
  /-- A part of the template does not make sense. -/
  | refused
  | failed (error : Render.Error)

/-- Several things written one after another. -/
def Written.each {ε α : Type} (write : α → Written ε) : List α → Written ε
  | [] => .nothing
  | a :: rest => (write a).andThen (each write rest)

/-! ## The interpreter -/

/-- What the interpreter knows besides the document. -/
structure Interpreter where
  config : Config
  source : Source

namespace Interpreter

variable (i : Interpreter)

/-- The term that stands in an excerpt. -/
def term (env : Env) (e : Excerpt) : Except Stop Term :=
  (Term.read i.source env.scope e).mapError fun _ => .refused

/-- An error at the place of a term. -/
def stopAt (t : Term) (cause : Render.Cause) : Written Stop :=
  .stopped (.failed ⟨cause, i.source.name, t.location⟩)

/-- The value of a term, as it comes. -/
def value (env : Env) (t : Term) : Except Stop Value :=
  (t.eval (env.stack i.source.name)).mapError .failed

/-- The value of a term that is going to be written. -/
def output (env : Env) (t : Term) : Except Stop Value :=
  (t.conforming (env.stack i.source.name)).mapError .failed

/-- Writes the value of an expression. -/
def interpolation (env : Env) (e : Excerpt) (escaping : Text.Escaping) : Written Stop :=
  .after (i.term env e) fun t =>
    .after (i.output env t) fun v => .ofText (Text.write escaping "" v.text)

/-- Writes a part of character data. -/
def part (env : Env) : Interpolation.Part → Written Stop
  | .plain cs => .ofText (String.ofList cs)
  | .code e => i.interpolation env e i.config.escaping
  | .unterminated _ => .stopped .refused

/-! ### Attributes -/

/-- The names of the directives that control their element. -/
def controls : List String := ["for", "if", "text", "html"]

/-- The attribute of an element that gives a directive. -/
def directive? (e : Element) (name : String) : Option Attribute :=
  e.attributes.find? fun a => a.dynamic && i.config.directive? a.name == some name

/-- Writes an attribute as it stands in the template. -/
def staticAttribute (a : Attribute) : String :=
  " " ++ a.name ++
    match a.quote with
    | .bare => ""
    | .valued quote => "=" ++ quote.mark ++ a.text?.getD "" ++ quote.mark

/-- Writes an attribute with some value. -/
def attributeOf (name : String) (t : Term) : Value → Written Stop
  | .null => .nothing
  | v =>
    if booleanAttributes.contains name then
      match v with
      | .bool true => .ofText (" " ++ name)
      | .bool false => .nothing
      | other => i.stopAt t (.booleanAttribute name other.kind)
    else .ofText (" " ++ name ++ "=\"" ++ Text.write i.config.escaping "" v.text ++ "\"")

/-- Writes an attribute of an element. -/
def tagAttribute (env : Env) (a : Attribute) : Written Stop :=
  if a.dynamic then
    match i.config.directive? a.name with
    | none => .nothing
    | some name =>
      if controls.contains name then .nothing
      else
        .after (i.term env a.excerpt) fun t => .after (i.output env t) (i.attributeOf name t)
  else .ofText (staticAttribute a)

/-! ### Elements -/

/-- The text of a body that is not markup. -/
def rawText : List Node → String
  | [] => ""
  | .text content _ :: rest => content ++ rawText rest
  | _ :: rest => rawText rest

/-- Writes what is between the tags of an element, given what its children write. -/
def content (env : Env) (e : Element) (children : List Node) (inner : Written Stop) :
    Written Stop :=
  match i.directive? e "text", i.directive? e "html" with
  | some a, _ => i.interpolation env a.excerpt i.config.escaping
  | none, some a => i.interpolation env a.excerpt .disabled
  | none, none => if isRawText e.name then .ofText (rawText children) else inner

/-- Writes an element once. -/
def once (env : Env) (e : Element) (children : List Node) (inner : Written Stop) : Written Stop :=
  (Written.ofText ("<" ++ e.name)).andThen <|
    (Written.each (i.tagAttribute env) e.attributes).andThen <|
      (Written.ofText (if e.selfClosed then "/>" else ">")).andThen <|
        (i.content env e children inner).andThen
          (.ofText (if e.hasEndTag then "</" ++ e.name ++ ">" else ""))

/-- Writes a body if a condition holds. -/
def guarded (env : Env) (condition : Option Attribute) (body : Written Stop) : Written Stop :=
  match condition with
  | none => body
  | some a =>
    .after (i.term env a.excerpt) fun t =>
      .after (i.value env t) fun
        | .bool true => body
        | .bool false => .nothing
        | other => i.stopAt t (.condition other.kind)

/-- The type of the items of a list. -/
def itemType : Ty → Except Stop Ty
  | .list element => .ok element
  | _ => .error .refused

/-- The variable, the element type and the list of a loop. -/
def header (env : Env) (a : Attribute) : Except Stop (String × Ty × Term) := do
  let header ← (LoopHeader.read a.excerpt).mapError fun _ => .refused
  let list ← (header.list.resolve i.source env.scope).mapError fun _ => .refused
  let element ← itemType list.type
  return (header.name, element, list)

/-- Writes a body for each item of a list, the items numbered from `index` on. -/
def items (env : Env) (name : String) (element : Ty) (list : Term) (body : Env → Written Stop)
    (index : Nat) : List Value → Written Stop
  | [] => .nothing
  | item :: rest =>
    if item.conforms element then
      (body (env.bind name element item)).andThen
        (items env name element list body (index + 1) rest)
    else i.stopAt list (.itemShape index name element item.kind)

/-- Writes a body as often as a loop says. -/
def repeated (env : Env) (loop : Option Attribute) (body : Env → Written Stop) : Written Stop :=
  match loop with
  | none => body env
  | some a =>
    .after (i.header env a) fun (name, element, list) =>
      .after (i.value env list) fun
        | .list values => i.items env name element list body 0 values
        | other => i.stopAt list (.notIterable other.kind)

mutual

/-- Writes a node. -/
def node : Node → Env → Written Stop
  | .text content span, env => .each (i.part env) (Interpolation.parts span.start content.toList)
  | .comment content _, _ => if i.config.stripComments then .nothing else .ofText content
  | .element e children, env =>
    i.repeated env (i.directive? e "for") fun env =>
      i.guarded env (i.directive? e "if") (i.once env e children (nodes children env))
termination_by structural node => node

/-- Writes some nodes one after another. -/
def nodes : List Node → Env → Written Stop
  | [], _ => .nothing
  | first :: rest, env => (node first env).andThen (nodes rest env)
termination_by structural nodes => nodes

end

/-- The output after a document has been written to it, and why that stopped if it did. -/
def document (type : ObjectTy) (document : Document) (out : String) (context : Value) :
    String × Option Stop :=
  let w := i.nodes document.children { type := type, context := context }
  (out ++ w.text, w.halt)

end Interpreter

end TypedTemplate
