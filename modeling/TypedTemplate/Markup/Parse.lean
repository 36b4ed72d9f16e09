/-
# `TypedTemplate.Markup.Parse` — from a text to a tree

The tokens are taken one by one.  The first of them that does not fit into the tree
is what is wrong with the template; if all fit, it is the place where dividing the
text into tokens came to a halt; and if the text was divided to its end, it may
still be that the tree is not finished.
-/
import TypedTemplate.Diagnostic
import TypedTemplate.Markup.Builder
import TypedTemplate.Markup.Scan

namespace TypedTemplate.Markup

/-- A tree with some tokens added to it. -/
def Builder.addAll (config : Config) (b : Builder) :
    List Token → Except (Fault StructuralCause) Builder
  | [] => .ok b
  | token :: rest =>
    match b.add config token with
    | .ok b => b.addAll config rest
    | .error fault => .error fault

/-- The tree that the tokens of a text form. -/
def Document.ofTokens (config : Config) (ts : Tokens) : Except CompileError Document :=
  match Builder.addAll config {} ts.tokens, ts.fault with
  | .error fault, _ => .error (.structural fault)
  | .ok _, some fault => .error (.lexical fault)
  | .ok b, none =>
    match b.finish config with
    | .ok document => .ok document
    | .error fault => .error (.structural fault)

/-- The tree of a template. -/
def Document.read (config : Config) (source : Source) : Except CompileError Document :=
  Document.ofTokens config (scan source.chars)

/-- The tree of a template; a fault is reported with its place. -/
def Document.parse (config : Config) (source : Source) : Except Diagnostic Document :=
  (Document.read config source).mapError source.diagnose

end TypedTemplate.Markup
