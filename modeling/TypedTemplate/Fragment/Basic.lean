/-
# `TypedTemplate.Fragment.Basic` — what a compiled template consists of

A fragment is a part of a template ready to be rendered: text that is always the
same, a value to be written, an attribute, a sequence, a loop or a condition.

`ofPieces` puts the fragments that a compiler produces piece by piece into normal
form: text next to text becomes one piece, empty text disappears, and a sequence
of one is that one.
-/
import TypedTemplate.Term.Basic
import TypedTemplate.Text.Escaped

namespace TypedTemplate

/-- What a loop binds and what it runs over. -/
structure Loop where
  name : String
  element : Ty
  list : Term

/-- A part of a template ready to be rendered. -/
inductive Fragment where
  /-- Text that is always the same. -/
  | static (content : String)
  /-- A value written as text. -/
  | interpolation (term : Term) (escaping : Text.Escaping)
  /-- An attribute with its leading space; a boolean one is a bare name or nothing. -/
  | attribute (name : String) (term : Term) (boolean : Bool) (escaping : Text.Escaping)
  /-- Some fragments one after another. -/
  | sequence (parts : List Fragment)
  /-- The body once for every item. -/
  | loop (head : Loop) (body : Fragment)
  /-- The body if the condition holds. -/
  | conditional (condition : Term) (body : Fragment)

namespace Fragment

/-- A piece of text; none if it is empty. -/
def textPiece (content : String) : List Fragment :=
  if content.isEmpty then [] else [.static content]

/-- Joins text that stands next to text; `pending` is text not yet given out. -/
def joinText (pending : String) : List Fragment → List Fragment
  | [] => textPiece pending
  | .static content :: rest => joinText (pending ++ content) rest
  | other :: rest => textPiece pending ++ other :: joinText "" rest

/-- One fragment for some pieces. -/
def ofPieces (pieces : List Fragment) : Fragment :=
  match joinText "" pieces with
  | [only] => only
  | parts => .sequence parts

mutual

/-- A fragment and all fragments below it in order, each with its depth. -/
def walk (depth : Nat) : Fragment → List (Nat × Fragment)
  | .static content => [(depth, .static content)]
  | .interpolation term escaping => [(depth, .interpolation term escaping)]
  | .attribute name term boolean escaping => [(depth, .attribute name term boolean escaping)]
  | .sequence parts => (depth, .sequence parts) :: walkAll (depth + 1) parts
  | .loop head body => (depth, .loop head body) :: walk (depth + 1) body
  | .conditional condition body => (depth, .conditional condition body) :: walk (depth + 1) body
termination_by structural fragment => fragment

/-- Some fragments and all fragments below them in order, each with its depth. -/
def walkAll (depth : Nat) : List Fragment → List (Nat × Fragment)
  | [] => []
  | fragment :: rest => walk depth fragment ++ walkAll depth rest
termination_by structural fragments => fragments

end

/-- The fragment that a path leads to: in a sequence a step is the place of a part, into the body
of a loop or condition any step leads. -/
def follow? (fragment : Fragment) : List Nat → Option Fragment
  | [] => some fragment
  | step :: path =>
    match fragment with
    | .sequence parts => parts[step]?.bind fun part => part.follow? path
    | .loop _ body => body.follow? path
    | .conditional _ body => body.follow? path
    | _ => none

end Fragment

end TypedTemplate
