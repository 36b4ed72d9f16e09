/-
# `TypedTemplate.Text.Span` — byte ranges of a template's text

Every token, node and error says where it stands by a span: the byte at which it
begins and its length in bytes, both counted in the UTF-8 encoding of the whole
text.  Scanners walk the text as a list of characters and carry the byte offset
along, so a span is data about the text and never an index that is followed.
-/
namespace TypedTemplate.Text

/-- The length of a run of characters in UTF-8 bytes. -/
def size : List Char → Nat
  | [] => 0
  | c :: cs => c.utf8Size + size cs

@[simp] theorem size_nil : size [] = 0 := rfl

@[simp] theorem size_cons (c : Char) (cs : List Char) :
    size (c :: cs) = c.utf8Size + size cs := rfl

/-- Sizes add up along a concatenation. -/
@[simp] theorem size_append (a b : List Char) : size (a ++ b) = size a + size b := by
  induction a with
  | nil => simp
  | cons c cs ih => simp [ih, Nat.add_assoc]

end TypedTemplate.Text

namespace TypedTemplate

/-- A range of bytes of a template's text. -/
structure Span where
  start : Nat
  length : Nat
deriving Repr, DecidableEq

namespace Span

/-- The offset just past the range. -/
def stop (s : Span) : Nat := s.start + s.length

/-- The span of a run of characters that begins at `start`. -/
def ofChars (start : Nat) (cs : List Char) : Span := ⟨start, Text.size cs⟩

/-- The smallest range that covers both. -/
def join (a b : Span) : Span :=
  let start := min a.start b.start
  ⟨start, max a.stop b.stop - start⟩

end Span

end TypedTemplate
