/-
# `TypedTemplate.Text.Blank` — the two classes of blank space

Blank space is of two kinds here.  `isBlank` is the Unicode property White_Space;
it is what may stand between the parts of a start tag, between the tokens of an
expression and before the `>` of an end tag.  `isAsciiBlank` is space, tab, line
feed, form feed and carriage return (the vertical tab is not among them); it is
what ends an attribute name and an unquoted attribute value.  A no-break space
therefore separates attributes only where one could begin.
-/
import TypedTemplate.Text.Ranges

namespace TypedTemplate.Text

/-- The characters with the Unicode property White_Space. -/
def blankRanges : Ranges := [
    (0x9, 0xd), (0x20, 0x20), (0x85, 0x85), (0xa0, 0xa0), (0x1680, 0x1680), (0x2000, 0x200a),
    (0x2028, 0x2029), (0x202f, 0x202f), (0x205f, 0x205f), (0x3000, 0x3000)]

/-- Blank space in the sense of Unicode. -/
def isBlank (c : Char) : Bool := inRanges blankRanges c

/-- Space, tab, line feed, form feed or carriage return. -/
def isAsciiBlank (c : Char) : Bool :=
  c == ' ' || c == '\t' || c == '\n' || c == '\x0c' || c == '\r'

end TypedTemplate.Text
