/-
# `TypedTemplate.Markup.Document` — the tree of a template

A document is a list of nodes: text, comments, and elements with their own nodes
below them.  An element remembers how it was written: whether its start tag closed
itself, and whether an end tag of its own was met, since an element may also end
because an element around it does, or because the text does.  An attribute remembers
the text of its value, how that is quoted and where it stands; the three are given to
it together.
-/
import TypedTemplate.Markup.Token

namespace TypedTemplate.Markup

/-- How an attribute is written: as a bare name, or with a value. -/
inductive Quoting where
  | bare
  | valued (quote : Quote)
deriving Repr, DecidableEq

/-- An attribute of a start tag. -/
structure Attribute where
  name : String
  /-- The text of the value, without quotes. -/
  text? : Option String
  quote : Quoting
  /-- The value is an expression rather than text. -/
  dynamic : Bool
  /-- The span of the name. -/
  span : Span
  /-- The span of the value's text. -/
  valueSpan? : Option Span
deriving Repr, DecidableEq

namespace Attribute

/-- An attribute with a name and no value. -/
def ofName (name : String) (dynamic : Bool) (span : Span) : Attribute :=
  ⟨name, none, .bare, dynamic, span, none⟩

/-- Gives the attribute a value. -/
def setValue (a : Attribute) (value : AttributeValue) : Attribute :=
  { a with
    text? := some value.text
    quote := .valued value.quote
    valueSpan? := some value.span }

/-- The value, if all its parts are there. -/
def value (a : Attribute) : Option AttributeValue :=
  match a.text?, a.quote, a.valueSpan? with
  | some text, .valued quote, some span => some ⟨text, quote, span⟩
  | _, _, _ => none

end Attribute

/-- A start tag, and how its element ends. -/
structure Element where
  name : String
  attributes : List Attribute
  /-- The start tag ends with `/>`. -/
  selfClosed : Bool
  /-- There is an end tag for this element. -/
  hasEndTag : Bool
  /-- The span of `<name`. -/
  span : Span
deriving Repr, DecidableEq

/-- The attribute of a name; the first of several. -/
def Element.attribute? (element : Element) (name : String) : Option Attribute :=
  element.attributes.find? fun a => a.name == name

/-- A node of the tree. -/
inductive Node where
  | text (content : String) (span : Span)
  /-- A comment with its delimiters. -/
  | comment (content : String) (span : Span)
  | element (element : Element) (children : List Node)
deriving Repr

/-- The element at a node, if there is one. -/
def Node.element? : Node → Option Element
  | .element e _ => some e
  | _ => none

/-- A parsed template. -/
structure Document where
  children : List Node
deriving Repr

mutual

/-- A node and all nodes below it in document order, each with its depth. -/
def Node.walk (depth : Nat) : Node → List (Nat × Node)
  | .element e children => (depth, .element e children) :: Node.walkAll (depth + 1) children
  | .text content span => [(depth, .text content span)]
  | .comment content span => [(depth, .comment content span)]
termination_by structural node => node

/-- Some nodes and all nodes below them in document order, each with its depth. -/
def Node.walkAll (depth : Nat) : List Node → List (Nat × Node)
  | [] => []
  | node :: rest => node.walk depth ++ Node.walkAll depth rest
termination_by structural nodes => nodes

end

/-- All nodes in document order, each with its depth below the top. -/
def Document.descendants (document : Document) : List (Nat × Node) :=
  Node.walkAll 0 document.children

end TypedTemplate.Markup
