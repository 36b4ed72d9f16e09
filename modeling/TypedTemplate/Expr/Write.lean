/-
# `TypedTemplate.Expr.Write` — expressions in writing

The other direction of `Expr.read`: an expression is written with no blank space but
after commas, its strings in quotes of a given kind with a backslash before each
quote and backslash in them.  Parentheses are needed in one place only, around a
negation that something is asked of, because a `!` is looser than a `.`.
-/
import TypedTemplate.Expr.Basic

namespace TypedTemplate.Expr

/-- The characters of a string literal between its quotes. -/
def escapeString (quote : Char) : List Char → List Char
  | [] => []
  | c :: cs =>
    if c = quote ∨ c = '\\' then '\\' :: c :: escapeString quote cs
    else c :: escapeString quote cs

/-- A literal in writing.  A float keeps a point, which is what tells it from a whole number. -/
def Literal.write (quote : Char) : Literal → List Char
  | .bool b => if b then ['t', 'r', 'u', 'e'] else ['f', 'a', 'l', 's', 'e']
  | .int i => (Value.intText i).toList
  | .float x =>
    let digits := (Number.floatText x).toList
    if digits.contains '.' then digits else digits ++ ['.', '0']
  | .string s => quote :: (escapeString quote s.toList ++ [quote])

/-- Whether something asked of the expression would be asked of its operand instead. -/
def isLoose : Expr → Bool
  | .negation _ _ => true
  | _ => false

/-- In parentheses where they are needed. -/
def guarded (loose : Bool) (cs : List Char) : List Char :=
  if loose then '(' :: (cs ++ [')']) else cs

mutual

/-- An expression in writing. -/
def write (quote : Char) : Expr → List Char
  | .constant literal _ => literal.write quote
  | .listing items _ => '[' :: (writeAll quote items ++ [']'])
  | .ident word _ => word.toList
  | .rootCall method args _ => method.toList ++ '(' :: (writeAll quote args ++ [')'])
  | .fieldOf base field _ => guarded base.isLoose (write quote base) ++ '.' :: field.toList
  | .methodOf base method args _ =>
    guarded base.isLoose (write quote base) ++ '.' :: method.toList ++
      '(' :: (writeAll quote args ++ [')'])
  | .negation operand _ => '!' :: write quote operand
termination_by structural e => e

/-- Some expressions in writing, with commas between them. -/
def writeAll (quote : Char) : List Expr → List Char
  | [] => []
  | e :: es => write quote e ++ writeMore quote es
termination_by structural es => es

/-- Some further expressions in writing, each after a comma. -/
def writeMore (quote : Char) : List Expr → List Char
  | [] => []
  | e :: es => ',' :: ' ' :: (write quote e ++ writeMore quote es)
termination_by structural es => es

end

end TypedTemplate.Expr
