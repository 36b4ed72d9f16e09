/-
# `TypedTemplate.Config` — how a template is to be compiled

The options of one compilation.  An attribute is dynamic when its name begins with
the dynamic mark and goes on after it; what comes after the mark is the directive
(`c:for` has the directive `for`).  With an empty mark every attribute is dynamic.
-/
import TypedTemplate.Text.Escaped

namespace TypedTemplate

/-- The options of a compilation. -/
structure Config where
  /-- What the name of a dynamic attribute begins with. -/
  dynamicMark : String := "c:"
  /-- Whether a template that ends with elements still open is refused. -/
  strictEndTags : Bool := false
  /-- Whether comments are left out of the output. -/
  stripComments : Bool := false
  /-- What interpolated values go through. -/
  escaping : Text.Escaping := .html
deriving Repr, DecidableEq

namespace Config

/-- What a name says after a mark; `none` if it does not begin with the mark or ends there. -/
def afterMark? (mark name : List Char) : Option (List Char) :=
  if mark.isPrefixOf name && mark.length < name.length then some (name.drop mark.length)
  else none

/-- The directive of the dynamic attribute `name`; `none` for a static one. -/
def directive? (config : Config) (name : String) : Option String :=
  (afterMark? config.dynamicMark.toList name.toList).map String.ofList

end Config

end TypedTemplate
