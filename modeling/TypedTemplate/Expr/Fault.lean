/-
# `TypedTemplate.Expr.Fault` — what can be wrong with an expression

All causes that concern the dynamic parts of a template: expressions that cannot be
read, names that are not declared, types that do not fit, and directives that
contradict one another.  Some causes come with help, a list of the names that would
have been understood.
-/
import TypedTemplate.Ty.Basic
import TypedTemplate.Expr.Token

namespace TypedTemplate.Expr

/-- What the reader was ready for when it met another token. -/
inductive Expected where
  | expression
  | memberName
  | closeParen
  | commaOrCloseParen
  | commaOrCloseBracket
  | stop
deriving Repr, DecidableEq

/-- An expectation in words. -/
def Expected.text : Expected → String
  | .expression => "an expression"
  | .memberName => "field or method name after `.`"
  | .closeParen => "`)`"
  | .commaOrCloseParen => "`,` or `)`"
  | .commaOrCloseBracket => "`,` or `]`"
  | .stop => "end of expression"

/-- What an expression of a scalar type is needed for. -/
inductive ScalarUse where
  | interpolation
  | attributeValue (name : String)
  | content (directive : String)
deriving Repr, DecidableEq

/-- A use in words. -/
def ScalarUse.text : ScalarUse → String
  | .interpolation => "interpolated expression"
  | .attributeValue name => "attribute `" ++ name ++ "`"
  | .content directive => "`" ++ directive ++ "` expression"

/-- Why a dynamic part of a template is refused. -/
inductive Cause where
  -- reading
  | unterminatedString
  | intOutOfRange (literal : String)
  | unexpectedCharacter (c : Char)
  | unexpectedToken (expected : Expected) (found : TokenKind)
  | malformedLoop (statement : String)
  | unterminatedInterpolation
  -- names
  | unknownName (name : String) (inScope : List String)
  | unknownRootMethod (root : ObjectTy) (name : String)
  | unknownField (type : Ty) (name : String)
  | unknownMethod (type : Ty) (name : String)
  -- types
  | emptyList
  | mixedList (expected found : Ty)
  | argumentCount (method : String) (expected found : Nat)
  | argumentType (index : Nat) (method : String) (expected found : Ty)
  | builtinArguments (method : String) (found : Nat)
  | negationOf (found : Ty)
  | notAList (list : String) (found : Ty)
  | conditionType (found : Ty)
  | booleanAttributeType (name : String) (found : Ty)
  | notScalar (use : ScalarUse) (found : Ty)
  -- directives
  | duplicateDirective (name element : String)
  | textAndHtml (element : String)
  | contentOfSelfClosed (directive element : String)

namespace Cause

/-- A cause in words. -/
def text : Cause → String
  | unterminatedString => "string literal is not terminated"
  | intOutOfRange literal => "integer `" ++ literal ++ "` is out of range"
  | unexpectedCharacter c => "unexpected character `" ++ c.toString ++ "` in expression"
  | unexpectedToken expected found => "expected " ++ expected.text ++ ", found " ++ found.text
  | malformedLoop statement => "for statement must match \"var:list\", statement=" ++ statement
  | unterminatedInterpolation => "`#\x7b` is not terminated by `\x7d`"
  | unknownName name _ => "unknown identifier `" ++ name ++ "`"
  | unknownRootMethod root name =>
    "context type `" ++ root.name ++ "` has no method `" ++ name ++ "()`"
  | unknownField type name => "type `" ++ type.text ++ "` has no field `" ++ name ++ "`"
  | unknownMethod type name => "type `" ++ type.text ++ "` has no method `" ++ name ++ "()`"
  | emptyList => "cannot infer the element type of an empty list"
  | mixedList expected found =>
    "list items must all have one type: expected " ++ expected.text ++ ", found " ++ found.text
  | argumentCount method expected found =>
    "method `" ++ method ++ "()` takes " ++ toString expected ++ " argument(s), found " ++
      toString found
  | argumentType index method expected found =>
    "argument " ++ toString (index + 1) ++ " of `" ++ method ++ "()` must be " ++ expected.text ++
      ", found " ++ found.text
  | builtinArguments method found =>
    "method `" ++ method ++ "()` takes no arguments, found " ++ toString found
  | negationOf found => "`!` needs a Bool operand, found " ++ found.text
  | notAList list found =>
    "for statement must return List<T>, list=" ++ list ++ ", returnType=" ++ found.text
  | conditionType found => "if condition must be Bool, found " ++ found.text
  | booleanAttributeType name found =>
    "attribute `" ++ name ++ "` must be Bool, found " ++ found.text
  | notScalar use found =>
    use.text ++ " must be Bool, Int, Float or String, found " ++ found.text
  | duplicateDirective name element => "duplicate `" ++ name ++ "` on <" ++ element ++ ">"
  | textAndHtml element =>
    "<" ++ element ++ "> cannot have both text and html content directives"
  | contentOfSelfClosed directive element =>
    "`" ++ directive ++ "` needs an element body, but <" ++ element ++ "/> is self-closing"

/-- The names that would have been understood. -/
def available (names : List String) : String := "available: " ++ String.intercalate ", " names

/-- The members of an object type, for help. -/
def availableMembers (o : ObjectTy) : String :=
  if o.memberNames.isEmpty then "`" ++ o.name ++ "` declares no fields or methods"
  else available o.memberNames

/-- What would have been understood, where that can be listed. -/
def help : Cause → Option String
  | unknownName _ inScope => some (available inScope)
  | unknownRootMethod root _ => some (availableMembers root)
  | unknownField type _ => type.object?.map availableMembers
  | unknownMethod type _ => type.object?.map availableMembers
  | _ => none

end Cause

end TypedTemplate.Expr
