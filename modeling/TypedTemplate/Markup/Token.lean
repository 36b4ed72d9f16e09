/-
# `TypedTemplate.Markup.Token` — the tokens that markup is made of

A template's text is a sequence of tokens: runs of character data, comments, the
parts of start tags, the bodies of raw text elements, and end tags.  Every token
covers the characters of its span and, blank space inside start tags apart, the
tokens cover the whole text.
-/
import TypedTemplate.Text.Span

namespace TypedTemplate.Markup

/-- How an attribute's value is written. -/
inductive Quote where
  | double
  | single
  | unquoted
deriving Repr, DecidableEq

/-- The characters around a value. -/
def Quote.mark : Quote → String
  | .double => "\""
  | .single => "'"
  | .unquoted => ""

/-- An attribute's value without its quotes, and the span of just that. -/
structure AttributeValue where
  text : String
  quote : Quote
  span : Span
deriving Repr, DecidableEq

/-- A piece of markup. -/
inductive Token where
  /-- Character data, declarations such as `<!DOCTYPE>` included. -/
  | text (content : String) (span : Span)
  /-- A comment with its delimiters. -/
  | comment (content : String) (span : Span)
  /-- The beginning of a start tag, `<name`. -/
  | openTag (name : String) (span : Span)
  | attributeName (name : String) (span : Span)
  /-- A value with the `=` before it, which the span covers. -/
  | attributeValue (value : AttributeValue) (span : Span)
  /-- The end of a start tag, `>`. -/
  | tagEnd (span : Span)
  /-- The end of a start tag that closes itself, `/>`. -/
  | tagSelfClose (span : Span)
  /-- The body of a raw text element; it may be empty. -/
  | rawText (content : String) (span : Span)
  /-- An end tag; `inner` is what stands between `</` and `>`. -/
  | closeTag (inner : String) (span : Span)
deriving Repr, DecidableEq

/-- The characters that a token covers. -/
def Token.span : Token → Span
  | .text _ span => span
  | .comment _ span => span
  | .openTag _ span => span
  | .attributeName _ span => span
  | .attributeValue _ span => span
  | .tagEnd span => span
  | .tagSelfClose span => span
  | .rawText _ span => span
  | .closeTag _ span => span

end TypedTemplate.Markup
