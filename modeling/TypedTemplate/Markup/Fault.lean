/-
# `TypedTemplate.Markup.Fault` — what can be wrong with markup

Lexical causes are pieces that never end: a tag, a comment, a quoted value, a raw
text element.  Structural causes are pieces in the wrong place: an end tag without
a start tag, a value without a name, a directive without a value.
-/
namespace TypedTemplate.Markup

/-- Why the text cannot be divided into tokens. -/
inductive LexicalCause where
  | unterminatedEndTag
  | unterminatedComment
  | unterminatedStartTag
  | unterminatedValue
  | missingValue
  | unexpectedCharacter
  | unclosedRawText (element : String)
deriving Repr, DecidableEq

/-- A lexical cause in words. -/
def LexicalCause.text : LexicalCause → String
  | .unterminatedEndTag => "end tag is not terminated by `>`"
  | .unterminatedComment => "comment is not terminated by `-->`"
  | .unterminatedStartTag => "start tag is not terminated by `>`"
  | .unterminatedValue => "attribute value is not terminated by a closing quote"
  | .missingValue => "attribute value is missing after `=`"
  | .unexpectedCharacter => "unexpected character in start tag"
  | .unclosedRawText element => s!"<{element}> element is never closed"

/-- Why the tokens do not form a tree. -/
inductive StructuralCause where
  | emptyTagName
  | upperCaseTagName (name : String)
  | valueWithoutName
  | missingDynamicValue (name : String)
  | unmatchedEndTag (name : String)
  | neverClosed (element : String)
deriving Repr, DecidableEq

/-- A structural cause in words. -/
def StructuralCause.text : StructuralCause → String
  | .emptyTagName => "tag name is empty"
  | .upperCaseTagName name => s!"tag name must be in lower case, name={name}"
  | .valueWithoutName => "attribute value has no attribute name"
  | .missingDynamicValue name => s!"dynamic attribute `{name}` requires a value"
  | .unmatchedEndTag name => s!"can not find matched tag to close, tagName={name}"
  | .neverClosed element => s!"<{element}> is never closed"

end TypedTemplate.Markup
