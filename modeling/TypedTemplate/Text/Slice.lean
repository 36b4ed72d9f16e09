/-
# `TypedTemplate.Text.Slice` — the characters of a span

`slice?` finds the characters that a span covers.  A span that begins or ends inside
a character, or reaches past the end, covers none.
-/
import TypedTemplate.Text.Span

namespace TypedTemplate.Text

/-- What is left after `n` bytes, if they end between two characters. -/
def dropBytes? (n : Nat) : List Char → Option (List Char)
  | [] => if n = 0 then some [] else none
  | c :: cs =>
    if n = 0 then some (c :: cs)
    else if c.utf8Size ≤ n then dropBytes? (n - c.utf8Size) cs
    else none

/-- The first `n` bytes, if they end between two characters. -/
def takeBytes? (n : Nat) : List Char → Option (List Char)
  | [] => if n = 0 then some [] else none
  | c :: cs =>
    if n = 0 then some []
    else if c.utf8Size ≤ n then (takeBytes? (n - c.utf8Size) cs).map (c :: ·)
    else none

/-- The characters of `cs` that a span covers. -/
def slice? (cs : List Char) (s : Span) : Option (List Char) :=
  (dropBytes? s.start cs).bind (takeBytes? s.length)

/-- Taking the bytes of a run of characters that stands at the front gives that run. -/
theorem takeBytes?_append (a b : List Char) : takeBytes? (size a) (a ++ b) = some a := by
  induction a with
  | nil => cases b <;> simp [takeBytes?]
  | cons c cs ih =>
    have hpos := c.utf8Size_pos
    have hne : ¬ (c.utf8Size + size cs = 0) := by omega
    have hle : c.utf8Size ≤ c.utf8Size + size cs := by omega
    have hsub : c.utf8Size + size cs - c.utf8Size = size cs := by omega
    simp only [List.cons_append, size_cons, takeBytes?, hne, if_false, hle, if_true, hsub, ih,
      Option.map_some]

/-- Dropping the bytes of a run of characters that stands at the front leaves the rest. -/
theorem dropBytes?_append (a b : List Char) : dropBytes? (size a) (a ++ b) = some b := by
  induction a with
  | nil => cases b <;> simp [dropBytes?]
  | cons c cs ih =>
    have hpos := c.utf8Size_pos
    have hne : ¬ (c.utf8Size + size cs = 0) := by omega
    have hle : c.utf8Size ≤ c.utf8Size + size cs := by omega
    have hsub : c.utf8Size + size cs - c.utf8Size = size cs := by omega
    simp only [List.cons_append, size_cons, dropBytes?, hne, if_false, hle, if_true, hsub, ih]

/-- The span of a run of characters in the middle of a text covers that run. -/
theorem slice?_append (a b c : List Char) :
    slice? (a ++ b ++ c) (.ofChars (size a) b) = some b := by
  unfold slice? Span.ofChars
  rw [List.append_assoc, dropBytes?_append]
  exact takeBytes?_append b c

end TypedTemplate.Text
