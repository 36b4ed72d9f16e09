/-
# `TypedTemplate.Expr.Basic` — expressions as they are written

The tree of an expression before its names have been looked up.  Every node carries
the span that it covers; parentheses group and leave no node behind.
-/
import TypedTemplate.Expr.Token

namespace TypedTemplate

/-- An expression. -/
inductive Expr where
  | constant (literal : Expr.Literal) (span : Span)
  | listing (items : List Expr) (span : Span)
  /-- A loop's name, or a field of the context. -/
  | ident (word : String) (span : Span)
  /-- A method of the context, `method(args)`. -/
  | rootCall (method : String) (args : List Expr) (span : Span)
  /-- A field of a value, `base.field`. -/
  | fieldOf (base : Expr) (field : String) (span : Span)
  /-- A method of a value, `base.method(args)`. -/
  | methodOf (base : Expr) (method : String) (args : List Expr) (span : Span)
  | negation (operand : Expr) (span : Span)

/-- The characters that an expression covers. -/
def Expr.span : Expr → Span
  | .constant _ span => span
  | .listing _ span => span
  | .ident _ span => span
  | .rootCall _ _ span => span
  | .fieldOf _ _ span => span
  | .methodOf _ _ _ span => span
  | .negation _ span => span

/-- A loop header, `name : list`. -/
structure LoopHeader where
  name : String
  list : Expr

end TypedTemplate
