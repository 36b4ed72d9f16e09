/-
# `TypedTemplate.Text.Escaped` — text made safe for HTML

Five characters are written as entities, all others as they are.  `unescape` reads
the five entities back, left to right, and is the inverse of `escape`; it knows
no other entity and leaves every other `&` alone.
-/
namespace TypedTemplate.Text

/-- What an interpolated value goes through on its way into the output. -/
inductive Escaping where
  /-- The five characters special to HTML are written as entities. -/
  | html
  /-- The text is written as it is. -/
  | disabled
deriving Repr, DecidableEq

/-- How one character is written. -/
def escapeChar (c : Char) : List Char :=
  if c = '&' then ['&', 'a', 'm', 'p', ';']
  else if c = '<' then ['&', 'l', 't', ';']
  else if c = '>' then ['&', 'g', 't', ';']
  else if c = '"' then ['&', 'q', 'u', 'o', 't', ';']
  else if c = '\'' then ['&', '#', '3', '9', ';']
  else [c]

/-- A text with its special characters written as entities. -/
def escape (cs : List Char) : List Char := cs.flatMap escapeChar

/-- The text whose special characters were written as entities. -/
def unescape : List Char → List Char
  | '&' :: 'a' :: 'm' :: 'p' :: ';' :: cs => '&' :: unescape cs
  | '&' :: 'l' :: 't' :: ';' :: cs => '<' :: unescape cs
  | '&' :: 'g' :: 't' :: ';' :: cs => '>' :: unescape cs
  | '&' :: 'q' :: 'u' :: 'o' :: 't' :: ';' :: cs => '"' :: unescape cs
  | '&' :: '#' :: '3' :: '9' :: ';' :: cs => '\'' :: unescape cs
  | c :: cs => c :: unescape cs
  | [] => []

/-- Appends `text` to `out` with its special characters written as entities. -/
def escapeHtml (out text : String) : String := out ++ String.ofList (escape text.toList)

/-- Appends `text` to `out` as the policy asks. -/
def write (policy : Escaping) (out text : String) : String :=
  match policy with
  | .html => escapeHtml out text
  | .disabled => out ++ text

end TypedTemplate.Text
