/-
# `TypedTemplate.Markup.Write` — a tree as the tokens it was made from

A `Mark` is a token without its place and without what its place decides: the body
of a raw text element is text like any other, and an end tag is its name.  A tree
walked in document order gives back the marks of its text (`Document.marks`); the
tokens of a text give theirs (`Token.marks`).  `Mark.write` is the text of a mark with
one space before an attribute and none after the name in an end tag, which is how
the static part of a template is written.
-/
import TypedTemplate.Markup.Builder

namespace TypedTemplate.Markup

/-- A token without its place. -/
inductive Mark where
  | text (content : String)
  | comment (content : String)
  | openTag (name : String)
  | attributeName (name : String)
  | attributeValue (quote : Quote) (value : String)
  | tagEnd
  | tagSelfClose
  | closeTag (name : String)
deriving Repr, DecidableEq

/-- A mark in writing. -/
def Mark.write : Mark → String
  | .text content => content
  | .comment content => content
  | .openTag name => "<" ++ name
  | .attributeName name => " " ++ name
  | .attributeValue quote value => "=" ++ quote.mark ++ value ++ quote.mark
  | .tagEnd => ">"
  | .tagSelfClose => "/>"
  | .closeTag name => "</" ++ name ++ ">"

/-- The mark of a token; an empty body leaves none. -/
def Token.marks : Token → List Mark
  | .text content _ => [.text content]
  | .comment content _ => [.comment content]
  | .openTag name _ => [.openTag name]
  | .attributeName name _ => [.attributeName name]
  | .attributeValue value _ => [.attributeValue value.quote value.text]
  | .tagEnd _ => [.tagEnd]
  | .tagSelfClose _ => [.tagSelfClose]
  | .rawText content _ => if content.isEmpty then [] else [.text content]
  | .closeTag inner _ => [.closeTag (closingName inner)]

/-- The marks of an attribute. -/
def Attribute.marks (a : Attribute) : List Mark :=
  .attributeName a.name ::
    match a.quote with
    | .bare => []
    | .valued quote => [.attributeValue quote (a.text?.getD "")]

/-- The marks of a start tag. -/
def Element.openMarks (e : Element) : List Mark :=
  .openTag e.name ::
    (e.attributes.flatMap Attribute.marks ++ [if e.selfClosed then .tagSelfClose else .tagEnd])

/-- The mark of an end tag, if there is one. -/
def Element.closeMarks (e : Element) : List Mark :=
  if e.hasEndTag then [.closeTag e.name] else []

mutual

/-- The marks of a node and of all below it, in document order. -/
def Node.marks : Node → List Mark
  | .text content _ => [.text content]
  | .comment content _ => [.comment content]
  | .element e children => e.openMarks ++ Node.marksAll children ++ e.closeMarks
termination_by structural node => node

/-- The marks of some nodes, in document order. -/
def Node.marksAll : List Node → List Mark
  | [] => []
  | node :: rest => node.marks ++ Node.marksAll rest
termination_by structural nodes => nodes

end

/-- The marks of a tree, in document order. -/
def Document.marks (document : Document) : List Mark := Node.marksAll document.children

/-- A tree in writing. -/
def Document.write (document : Document) : String :=
  String.join (document.marks.map Mark.write)

end TypedTemplate.Markup
