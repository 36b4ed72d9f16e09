/-
# `TypedTemplate.Markup.Builder` — from tokens to a tree

The tree is built token by token.  A `Builder` holds what is finished at the top
level and the elements that are still open, innermost first, each with its finished
children; inside a start tag it also holds the tag read so far.  A start tag opens
an element unless the element is void or the tag closes itself; an end tag closes
the innermost open element of its name, and the elements opened since then end
with it.  A void element is never open: its end tag belongs to the node just before
it, if that is the void element's own start tag, and counts for nothing otherwise.

Children are gathered last first and turned round when their element is finished.
-/
import TypedTemplate.Config
import TypedTemplate.Fault
import TypedTemplate.Text.Blank
import TypedTemplate.Text.Uppercase
import TypedTemplate.Markup.Document
import TypedTemplate.Markup.Fault
import TypedTemplate.Markup.Vocabulary

namespace TypedTemplate.Markup

/-! ## Start tags -/

/-- A start tag read up to some point. -/
structure TagSoFar where
  name : String
  span : Span
  /-- The attributes, last first. -/
  attributes : List Attribute := []
  /-- The last attribute is waiting for a value. -/
  awaiting : Bool := false
deriving Repr

namespace TagSoFar

/-- Takes an attribute's name. -/
def addName (tag : TagSoFar) (dynamic : Bool) (name : String) (span : Span) : TagSoFar :=
  { tag with attributes := .ofName name dynamic span :: tag.attributes, awaiting := true }

/-- Takes the value of the attribute that was named last; only once. -/
def addValue? (tag : TagSoFar) (value : AttributeValue) : Option TagSoFar :=
  match tag.awaiting, tag.attributes with
  | true, last :: earlier =>
    some { tag with attributes := last.setValue value :: earlier, awaiting := false }
  | _, _ => none

/-- The first dynamic attribute that has no value. -/
def missingValue? (tag : TagSoFar) : Option Attribute :=
  tag.attributes.reverse.find? fun a => a.dynamic && a.text?.isNone

/-- The element that the tag begins. -/
def element (tag : TagSoFar) (selfClosed : Bool) : Element where
  name := tag.name
  attributes := tag.attributes.reverse
  selfClosed := selfClosed
  hasEndTag := false
  span := tag.span

end TagSoFar

/-! ## Open elements -/

/-- An element whose end has not been met, with its children so far, last first. -/
structure OpenElement where
  element : Element
  children : List Node
deriving Repr

/-- The node of an element that ends, by an end tag of its own or without one. -/
def OpenElement.close (o : OpenElement) (hasEndTag : Bool) : Node :=
  .element { o.element with hasEndTag := hasEndTag } o.children.reverse

/-- Closes the innermost open element called `name`; what was opened inside it ends with it.
`inner` is the node that ended just before, to be its parent's last child. -/
def closeNamed (name : String) (inner : List Node) : List OpenElement →
    Option (Node × List OpenElement)
  | [] => none
  | o :: outer =>
    let o := { o with children := inner ++ o.children }
    if o.element.name = name then some (o.close true, outer)
    else closeNamed name [o.close false] outer

/-- Ends all open elements; the outermost of them becomes a node at the top level. -/
def closeAll (inner : List Node) : List OpenElement → List Node
  | [] => inner
  | o :: outer => closeAll [{ o with children := inner ++ o.children }.close false] outer

/-- Gives an end tag to the void element `name` if its start tag is the last of `nodes`. -/
def markVoidEnd (name : String) : List Node → List Node
  | .element e children :: rest =>
    if e.name = name && !e.selfClosed then .element { e with hasEndTag := true } children :: rest
    else .element e children :: rest
  | nodes => nodes

/-! ## The builder -/

/-- A tree that is being built. -/
structure Builder where
  /-- The finished nodes at the top level, last first. -/
  finished : List Node := []
  /-- The open elements, innermost first. -/
  opened : List OpenElement := []
  /-- The start tag that is being read, if any. -/
  tag : Option TagSoFar := none
deriving Repr

/-- A structural fault at a span. -/
def structural {α : Type} (span : Span) (cause : StructuralCause) :
    Except (Fault StructuralCause) α := .error ⟨cause, span⟩

/-- Refuses a tag name that is empty or has a capital letter. -/
def checkTagName (name : String) (span : Span) : Except (Fault StructuralCause) Unit :=
  if name.isEmpty then structural span .emptyTagName
  else if name.toList.any Text.isUppercase then structural span (.upperCaseTagName name)
  else .ok ()

/-- The name in an end tag; blank space after it does not count. -/
def closingName (inner : String) : String :=
  String.ofList (inner.toList.reverse.dropWhile Text.isBlank).reverse

namespace Builder

/-- Changes the children of the innermost open element, or the top level if none is open. -/
def modifyChildren (b : Builder) (change : List Node → List Node) : Builder :=
  match b.opened with
  | [] => { b with finished := change b.finished }
  | o :: outer => { b with opened := { o with children := change o.children } :: outer }

/-- Adds a node where the reader is. -/
def append (b : Builder) (node : Node) : Builder := b.modifyChildren (node :: ·)

/-- Opens an element, or adds it whole if it cannot have children. -/
def enter (b : Builder) (element : Element) : Builder :=
  if element.selfClosed || isVoid element.name then b.append (.element element [])
  else { b with opened := ⟨element, []⟩ :: b.opened }

/-- Ends the start tag that is being read. -/
def endTag (b : Builder) (tag : TagSoFar) (selfClosed : Bool) :
    Except (Fault StructuralCause) Builder :=
  match tag.missingValue? with
  | some a => structural a.span (.missingDynamicValue a.name)
  | none => .ok ({ b with tag := none }.enter (tag.element selfClosed))

/-- Takes an end tag. -/
def close (b : Builder) (name : String) (span : Span) : Except (Fault StructuralCause) Builder :=
  if isVoid name then .ok (b.modifyChildren (markVoidEnd name))
  else
    match closeNamed name [] b.opened with
    | some (node, outer) => .ok ({ b with opened := outer }.append node)
    | none => structural span (.unmatchedEndTag name)

/-- Takes a token.  The parts of a start tag count only where one has begun. -/
def add (config : Config) (b : Builder) (token : Token) : Except (Fault StructuralCause) Builder :=
  match token, b.tag with
  | .text content span, _ => .ok (b.append (.text content span))
  | .comment content span, _ => .ok (b.append (.comment content span))
  | .rawText content span, _ =>
    if content.isEmpty then .ok b else .ok (b.append (.text content span))
  | .openTag name span, _ => do
    checkTagName name span
    return { b with tag := some { name := name, span := span } }
  | .closeTag inner span, _ => do
    checkTagName (closingName inner) span
    b.close (closingName inner) span
  | .attributeName name span, some tag =>
    .ok { b with tag := some (tag.addName (config.directive? name).isSome name span) }
  | .attributeValue value span, some tag =>
    match tag.addValue? value with
    | some tag => .ok { b with tag := some tag }
    | none => structural span .valueWithoutName
  | .tagEnd _, some tag => b.endTag tag false
  | .tagSelfClose _, some tag => b.endTag tag true
  | _, none => .ok b

/-- The tree at the end of the text.  Elements still open end here, unless the options ask for
an end tag for each; then the outermost of them is at fault. -/
def finish (config : Config) (b : Builder) : Except (Fault StructuralCause) Document :=
  match config.strictEndTags, b.opened.getLast? with
  | true, some o => structural o.element.span (.neverClosed o.element.name)
  | _, _ => .ok ⟨(closeAll [] b.opened ++ b.finished).reverse⟩

end Builder

end TypedTemplate.Markup
