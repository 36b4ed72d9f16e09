/-
# `TypedTemplate.Text.Location` — lines, columns, and the text they are counted in

A `Source` is a template's name and text.  `Source.location` turns a byte offset
into a line and a column, both counted from one: the line is one more than the
number of line feeds before the offset, the column one more than the number of
characters that begin after the last of them and before the offset.  An offset
past the end stands for the end; one inside a character counts that character,
because it has begun.
-/
import TypedTemplate.Text.Span

namespace TypedTemplate

/-- A line and a column, both from one; the column counts characters. -/
structure Location where
  line : Nat
  column : Nat
deriving Repr, DecidableEq

namespace Location

/-- The first place of a text. -/
def first : Location := ⟨1, 1⟩

/-- The place after the character `c`. -/
def after (l : Location) (c : Char) : Location :=
  if c = '\n' then ⟨l.line + 1, 1⟩ else ⟨l.line, l.column + 1⟩

/-- A location in writing, `line:column`. -/
def text (l : Location) : String := toString l.line ++ ":" ++ toString l.column

/-- The place `offset` bytes further on, starting from `l`. -/
def advance (l : Location) : (offset : Nat) → List Char → Location
  | _, [] => l
  | offset, c :: cs =>
    if offset = 0 then l else (l.after c).advance (offset - c.utf8Size) cs

end Location

/-- A template's name and text. -/
structure Source where
  name : String
  chars : List Char

namespace Source

/-- A source from a text as the host hands it over. -/
def ofString (name text : String) : Source := ⟨name, text.toList⟩

/-- The whole text. -/
def text (s : Source) : String := String.ofList s.chars

/-- The line and column of a byte offset. -/
def location (s : Source) (offset : Nat) : Location := Location.first.advance offset s.chars

end Source

end TypedTemplate
