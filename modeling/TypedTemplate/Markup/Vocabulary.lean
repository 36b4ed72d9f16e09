/-
# `TypedTemplate.Markup.Vocabulary` — elements that are not read like the others

A void element never has content, so its start tag opens nothing.  The content of a
raw text element is not markup: it runs, untouched, up to the element's end tag.
-/
namespace TypedTemplate.Markup

/-- The elements that never have content. -/
def voidElements : List String := [
  "area", "base", "br", "col", "embed", "hr", "img", "input", "link", "meta", "param", "source",
  "track", "wbr"]

/-- The elements whose content is not markup. -/
def rawTextElements : List String := ["script", "style"]

/-- Whether an element never has content. -/
def isVoid (name : String) : Bool := voidElements.contains name

/-- Whether an element's content is not markup. -/
def isRawText (name : String) : Bool := rawTextElements.contains name

end TypedTemplate.Markup
