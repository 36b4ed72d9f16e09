/-
# `TypedTemplate.Fragment.Interpolation` — character data with expressions in it

In character data an expression stands between `#{` and the next `}` that is not
inside a string literal of the expression.  `parts` divides character data into
plain text and expressions, in order; put back together they are the data again.
-/
import TypedTemplate.Expr.Token
import TypedTemplate.Text.Cut

namespace TypedTemplate.Interpolation

open Text

/-- Where in an expression a character stands. -/
inductive Place where
  /-- Outside string literals. -/
  | code
  /-- In a string literal that ends with `quote`. -/
  | string (quote : Char)
  /-- In such a literal, just after a backslash. -/
  | escape (quote : Char)
deriving Repr, DecidableEq

/-- The place after a character. -/
def Place.after (c : Char) : Place → Place
  | .code => if c = '"' ∨ c = '\'' then .string c else .code
  | .string quote => if c = '\\' then .escape quote else if c = quote then .code else .string quote
  | .escape quote => .string quote

/-- The characters before the brace that ends an expression, and those after it. -/
def untilBrace (place : Place) : List Char → Option (List Char × List Char)
  | [] => none
  | c :: cs =>
    if place = .code ∧ c = '\x7d' then some ([], cs)
    else (untilBrace (place.after c) cs).map fun (body, rest) => (c :: body, rest)

/-- The two characters that begin an expression. -/
def opener : List Char := ['#', '\x7b']

/-- An expression begins here. -/
def begins (cs : List Char) : Bool := opener.isPrefixOf cs

/-- A part of character data. -/
inductive Part where
  | plain (chars : List Char)
  | code (e : Excerpt)
  /-- An expression that does not end; the span is that of its `#{`. -/
  | unterminated (span : Span)

theorem untilBrace_length {place : Place} {cs body rest : List Char}
    (h : untilBrace place cs = some (body, rest)) : rest.length < cs.length := by
  induction cs generalizing place body with
  | nil => simp [untilBrace] at h
  | cons c cs ih =>
    rw [untilBrace] at h
    split at h
    · simp only [Option.some.injEq, Prod.mk.injEq] at h
      obtain ⟨-, rfl⟩ := h
      simp
    · obtain ⟨⟨b, r⟩, hbody, heq⟩ := Option.map_eq_some_iff.1 h
      simp only [Prod.mk.injEq] at heq
      obtain ⟨-, rfl⟩ := heq
      have := ih hbody
      simp only [List.length_cons]
      omega

/-- The parts of character data that stands at `pos`. -/
def parts (pos : Nat) (cs : List Char) : List Part :=
  match _hcut : cut? begins cs with
  | none => [.plain cs]
  | some (before, rest) =>
    let opened := pos + size before
    match _hbody : untilBrace .code (rest.drop 2) with
    | none => [.plain before, .unterminated ⟨opened, 2⟩]
    | some (body, rest) =>
      .plain before :: .code ⟨opened + 2, body⟩ :: parts (opened + 2 + size body + 1) rest
termination_by cs.length
decreasing_by
  have h1 := cut?_length _hcut
  have h2 := untilBrace_length _hbody
  simp only [List.length_drop] at h2
  omega

end TypedTemplate.Interpolation
