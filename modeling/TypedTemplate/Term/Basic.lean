/-
# `TypedTemplate.Term.Basic` — expressions with their names resolved

A term is an expression in which every name has been found: it is known whether a
name is bound by a loop or is a field of the context, which declared method a call
runs, and of what type every part is.  What remains for render time is whether the
values have the shape that the types promise.
-/
import TypedTemplate.Expr.Token
import TypedTemplate.Text.Location
import TypedTemplate.Ty.Basic

namespace TypedTemplate

/-- The methods that every list and string has. -/
inductive Builtin where
  | size
  | isEmpty
deriving Repr, DecidableEq

namespace Builtin

/-- The built-in method of a name. -/
def ofName? (name : String) : Option Builtin :=
  if name = "size" then some .size else if name = "isEmpty" then some .isEmpty else none

/-- The name of a built-in method. -/
def name : Builtin → String
  | .size => "size"
  | .isEmpty => "isEmpty"

/-- The type of its result. -/
def returns : Builtin → Ty
  | .size => .int
  | .isEmpty => .bool

/-- Its result for a list or string of some length. -/
def apply (length : Nat) : Builtin → Value
  | .size => .int (Int64.ofNat (min length Int64.maxValue.toNatClampNeg))
  | .isEmpty => .bool (length == 0)

end Builtin

/-- What is known of every term: its type and where it begins. -/
structure Typing where
  type : Ty
  location : Location

/-- A typed expression. -/
inductive Term where
  | constant (typing : Typing) (literal : Expr.Literal)
  | listing (typing : Typing) (items : List Term)
  /-- The value of the innermost loop of a name. -/
  | loopName (typing : Typing) (word : String)
  /-- A field of the context. -/
  | rootField (typing : Typing) (field : String)
  | fieldOf (typing : Typing) (base : Term) (field : String)
  /-- A host method of the context. -/
  | rootCall (typing : Typing) (name : String) (method : Method) (args : List Term)
  /-- A host method of a value. -/
  | methodOf (typing : Typing) (base : Term) (name : String) (method : Method) (args : List Term)
  | builtinOf (typing : Typing) (base : Term) (builtin : Builtin)
  | negation (typing : Typing) (operand : Term)

namespace Term

/-- The type and place of a term. -/
def typing : Term → Typing
  | constant t _ => t
  | listing t _ => t
  | loopName t _ => t
  | rootField t _ => t
  | fieldOf t _ _ => t
  | rootCall t _ _ _ => t
  | methodOf t _ _ _ _ => t
  | builtinOf t _ _ => t
  | negation t _ => t

/-- The static type of a term. -/
def type (t : Term) : Ty := t.typing.type

/-- Where the expression begins. -/
def location (t : Term) : Location := t.typing.location

end Term

end TypedTemplate
