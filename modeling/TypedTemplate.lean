/-
# `TypedTemplate` — HTML templates checked against the type of their context

Imports only: every module of the library.
-/
import TypedTemplate.Config
import TypedTemplate.Diagnostic
import TypedTemplate.Expr.Basic
import TypedTemplate.Expr.Fault
import TypedTemplate.Expr.Read
import TypedTemplate.Expr.Scan
import TypedTemplate.Expr.Token
import TypedTemplate.Expr.Write
import TypedTemplate.Fault
import TypedTemplate.Fields
import TypedTemplate.Fragment.Basic
import TypedTemplate.Fragment.Compile
import TypedTemplate.Fragment.Directives
import TypedTemplate.Fragment.Interpolation
import TypedTemplate.Fragment.Render
import TypedTemplate.Markup.Builder
import TypedTemplate.Markup.Document
import TypedTemplate.Markup.Fault
import TypedTemplate.Markup.Parse
import TypedTemplate.Markup.Scan
import TypedTemplate.Markup.Token
import TypedTemplate.Markup.Vocabulary
import TypedTemplate.Markup.Write
import TypedTemplate.Number.Binary
import TypedTemplate.Number.Decimal
import TypedTemplate.Registry
import TypedTemplate.Render.Fault
import TypedTemplate.Render.Stack
import TypedTemplate.Template
import TypedTemplate.Term.Basic
import TypedTemplate.Term.Eval
import TypedTemplate.Term.Resolve
import TypedTemplate.Term.Scope
import TypedTemplate.Text.Alphabetic
import TypedTemplate.Text.Blank
import TypedTemplate.Text.Cut
import TypedTemplate.Text.Escaped
import TypedTemplate.Text.Location
import TypedTemplate.Text.Numeric
import TypedTemplate.Text.Ranges
import TypedTemplate.Text.Slice
import TypedTemplate.Text.Span
import TypedTemplate.Text.Uppercase
import TypedTemplate.Ty.Basic
import TypedTemplate.Value.Basic
import TypedTemplate.Value.Shape
import TypedTemplate.Value.Text
import TypedTemplate.Proofs.Except
import TypedTemplate.Proofs.Fragment.Directives
import TypedTemplate.Proofs.Fragment.Pieces
import TypedTemplate.Proofs.Fragment.Places
import TypedTemplate.Proofs.Fragment.Steps
import TypedTemplate.Proofs.Fragment.Typing
import TypedTemplate.Proofs.Markup.Adds
import TypedTemplate.Proofs.Markup.Closing
import TypedTemplate.Proofs.Markup.Reading
import TypedTemplate.Proofs.Markup.Reads
import TypedTemplate.Proofs.Markup.Unclosed
import TypedTemplate.Proofs.Markup.WellFormed
import TypedTemplate.Proofs.Render.Binding
import TypedTemplate.Proofs.Render.Calls
import TypedTemplate.Proofs.Render.Interpret
import TypedTemplate.Proofs.Render.Meaning
import TypedTemplate.Proofs.Render.Mentions
import TypedTemplate.Proofs.Render.Soundness
import TypedTemplate.Proofs.Render.Written
import TypedTemplate.Proofs.Term.Calls
import TypedTemplate.Proofs.Term.Mentions
import TypedTemplate.Proofs.Term.Soundness
import TypedTemplate.Proofs.Term.Steps
import TypedTemplate.Proofs.Term.Typing
import TypedTemplate.Proofs.Expr.Typing
import TypedTemplate.Proofs.Text.Cut
import TypedTemplate.Proofs.Ty.Reach
import TypedTemplate.Proofs.Ty.Same
import TypedTemplate.Proofs.Value.Typing
import TypedTemplate.Proofs.Markup.Bare
import TypedTemplate.Proofs.Markup.Kept
import TypedTemplate.Proofs.Markup.Legible
import TypedTemplate.Proofs.Markup.Rereading
import TypedTemplate.Proofs.Markup.Writing
import TypedTemplate.Proofs.Markup.RoundTrip
import TypedTemplate.Proofs.Render.Static
import TypedTemplate.Proofs.Fragment.Checks
import TypedTemplate.Proofs.Render.Record
import TypedTemplate.Proofs.Render.Whole
import TypedTemplate.Proofs.Render.Scopes
import TypedTemplate.Proofs.Render.Escaping
import TypedTemplate.Proofs.Expr.Bare
import TypedTemplate.Proofs.Term.Bare
import TypedTemplate.Proofs.Fragment.Braces
import TypedTemplate.Proofs.Render.Inline
import TypedTemplate.Proofs.Registry
import TypedTemplate.Proofs.Markup.Nesting
import TypedTemplate.Proofs.Markup.Following
import TypedTemplate.Proofs.Markup.Slices
import TypedTemplate.Proofs.Markup.Tree
import TypedTemplate.Proofs.Render.Reproduced
import TypedTemplate.Proofs.Ty.Equality
import TypedTemplate.Proofs.Ty.Sharing
import TypedTemplate.Proofs.Term.Alike
import TypedTemplate.Proofs.Fragment.Alike
import TypedTemplate.Proofs.Fragment.Interchange
import TypedTemplate.Proofs.Fragment.Extension
import TypedTemplate.Proofs.Expr.Grammar
import TypedTemplate.Proofs.Expr.Lexeme
import TypedTemplate.Proofs.Expr.Derivation
import TypedTemplate.Proofs.Expr.Viable
import TypedTemplate.Proofs.Expr.RoundTrip
import TypedTemplate.Proofs.Expr.Layout
import TypedTemplate.Proofs.Expr.Nodes
import TypedTemplate.Proofs.Fragment.Excerpts
import TypedTemplate.Proofs.Text.Offsets
import TypedTemplate.Proofs.Markup.Cursor
import TypedTemplate.Proofs.Markup.Assembly
import TypedTemplate.Proofs.Expr.Cursor
import TypedTemplate.Proofs.Fragment.Cursor
import TypedTemplate.Proofs.Markup.Faults
import TypedTemplate.Proofs.Expr.Faults
import TypedTemplate.Proofs.Fragment.Faults
import TypedTemplate.Proofs.Fragment.Diagnostics
import TypedTemplate.Proofs.Markup.Shapes
import TypedTemplate.Proofs.Fragment.Splitting
import TypedTemplate.Proofs.Expr.Header
import TypedTemplate.Proofs.Fragment.Normal
import TypedTemplate.Proofs.Text.Bytes
import TypedTemplate.Proofs.Text.Entities
import TypedTemplate.Proofs.Text.Lines
import TypedTemplate.Proofs.Markup.Tiles
import TypedTemplate.Proofs.Expr.Spacing
import TypedTemplate.Proofs.Expr.Descent
import TypedTemplate.Proofs.Fragment.Bodies
