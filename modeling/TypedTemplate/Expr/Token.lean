/-
# `TypedTemplate.Expr.Token` — the tokens of expressions

An expression is divided into names, literals and single punctuation characters;
blank space between them does not count.  Spans are offsets into the whole
template, not into the expression.
-/
import TypedTemplate.Text.Span
import TypedTemplate.Value.Text

namespace TypedTemplate

/-- Part of a template that is read as an expression or a loop header: its characters, and
the offset at which they stand. -/
structure Excerpt where
  offset : Nat
  chars : List Char

/-- The span of the whole excerpt. -/
def Excerpt.span (e : Excerpt) : Span := .ofChars e.offset e.chars

namespace Expr

/-- A literal value. -/
inductive Literal where
  | bool (b : Bool)
  | int (i : Int64)
  | float (x : Float)
  | string (s : String)

/-- The value that a literal stands for. -/
def Literal.value : Literal → Value
  | .bool b => .bool b
  | .int i => .int i
  | .float x => .float x
  | .string s => .string s

/-- What a token is. -/
inductive TokenKind where
  | name (word : String)
  | literal (literal : Literal)
  | dot
  | comma
  | colon
  | bang
  | openParen
  | closeParen
  | openBracket
  | closeBracket
  /-- The end of the expression. -/
  | stop

/-- How a message speaks of a token. -/
def TokenKind.text : TokenKind → String
  | .name word => "`" ++ word ++ "`"
  | .literal (.bool b) => if b then "`true`" else "`false`"
  | .literal (.int i) => "`" ++ Value.intText i ++ "`"
  | .literal (.float x) => "`" ++ Number.floatText x ++ "`"
  | .literal (.string _) => "string literal"
  | .dot => "`.`"
  | .comma => "`,`"
  | .colon => "`:`"
  | .bang => "`!`"
  | .openParen => "`(`"
  | .closeParen => "`)`"
  | .openBracket => "`[`"
  | .closeBracket => "`]`"
  | .stop => "end of expression"

/-- A token and the characters it covers. -/
structure Token where
  kind : TokenKind
  span : Span

/-- The token that stands for the end of an excerpt. -/
def Token.stop (e : Excerpt) : Token := ⟨.stop, ⟨e.offset + Text.size e.chars, 0⟩⟩

end Expr

end TypedTemplate
