/-
# `TypedTemplate.Proofs.Fragment.Diagnostics` — compiling stays inside the template

Compiling computes with byte offsets: the tokens, the values in them, the expressions and the
tokens of these are sliced out of the text, and the tree and the expressions are put together
from items that are looked up by index.  Read in that way, with a failure wherever an offset is no
place between two characters or an index is out of range, a template gives what it gives read
from the front, so nothing of the kind ever fails; and the diagnostic of a template that is
refused covers characters of it, and counts the lines and columns before them
(`Template.compile_in_range`).
-/
import TypedTemplate.Proofs.Expr.Cursor
import TypedTemplate.Proofs.Fragment.Cursor
import TypedTemplate.Proofs.Fragment.Faults
import TypedTemplate.Proofs.Markup.Assembly
import TypedTemplate.Proofs.Text.Lines

namespace TypedTemplate

open Markup Text

/-! ## Diagnostics -/

/-- The diagnostic names the template, covers characters of it, and says in which line and column
they begin. -/
def Diagnostic.PointsInto (d : Diagnostic) (source : Source) : Prop :=
  d.template = source.name ∧ ∃ before covered after, source.chars = before ++ covered ++ after ∧
    d.error.span = .ofChars (size before) covered ∧ d.location = .behind before

theorem Source.diagnose_pointsInto {source : Source} {error : CompileError}
    (h : Lies source.chars error.span) : (source.diagnose error).PointsInto source := by
  obtain ⟨covered, hcovered⟩ := h
  obtain ⟨before, after, hchars, hspan⟩ := slice?_eq_some.1 hcovered
  refine ⟨rfl, before, covered, after, hchars, hspan, ?_⟩
  show source.location error.span.start = _
  rw [hspan]
  exact Source.location_eq (hchars.trans (List.append_assoc before covered after))

/-- The list of a loop is found in the header, where a message takes it from. -/
theorem LoopHeader.slice_list {e : Excerpt} {header : LoopHeader}
    (h : LoopHeader.read e = .ok header) : ∃ taken,
      slice? e.chars ⟨header.list.span.start - e.offset, header.list.span.length⟩ = some taken := by
  obtain ⟨ts, us, hts, hus, hlist⟩ := Excerpt.Gives.tokens (Or.inr ⟨header.name, h⟩)
  obtain ⟨q, taken, -, -, -, hcovers, -⟩ :=
    Expr.nodes_of_ofTokens hts hus hlist _ header.list.mem_nodes_self
  exact ⟨taken, hcovers.slice_chars⟩

/-- Nothing is looked up outside of a template while it is compiled, and where one is refused, the
diagnostic is about characters of it. -/
theorem Template.compile_in_range (config : Config) (source : Source) :
    Assembly.parse config source = some (Document.parse config source) ∧
      (∀ pos content, Interpolation.Cursor.parts pos content =
        some (Interpolation.parts pos content)) ∧
      (∀ e, Expr.Cursor.read e = some (Expr.read e)) ∧
      (∀ e, Expr.Cursor.readHeader e = some (LoopHeader.read e)) ∧
      (∀ e header, LoopHeader.read e = .ok header → ∃ taken, slice? e.chars
        ⟨header.list.span.start - e.offset, header.list.span.length⟩ = some taken) ∧
      (∀ d, Document.parse config source = .error d → d.PointsInto source) ∧
      ∀ context d, Template.compile config source context = .error d → d.PointsInto source := by
  refine ⟨Assembly.parse_eq config source, Interpolation.Cursor.parts_eq, Expr.Cursor.read_eq,
    Expr.Cursor.readHeader_eq, fun e header => LoopHeader.slice_list, fun d h => ?_,
    fun context d h => ?_⟩
  · obtain ⟨error, hread, rfl⟩ := Except.mapError_eq_error.1 h
    exact Source.diagnose_pointsInto (Document.read_fault hread)
  · obtain ⟨error, hcheck, rfl⟩ := Except.mapError_eq_error.1 h
    exact Source.diagnose_pointsInto (Template.check_fault hcheck)

namespace Letters

/-- A start tag does not end. -/
def torn : Source := .ofString "letters" "ä\n <p title='ü'"

/-- An expression has a sign in it that none has. -/
def summed : Source :=
  .ofString "letters" "<p>ä</p>\n<p title='ü'>ö #\x7bü + 1\x7d</p>"

/-- The theorem at two templates that are refused, each with letters of two bytes before the place. -/
theorem compile_in_range_letters :
    (∃ d, Document.parse {} torn = .error d ∧ d.PointsInto torn ∧
      d.error.span = ⟨4, 1⟩ ∧ d.location = ⟨2, 2⟩) ∧
    ∃ d, Template.compile {} summed (.empty "Letters") = .error d ∧ d.PointsInto summed ∧
      d.error.span = ⟨32, 1⟩ ∧ d.location = ⟨2, 20⟩ := by
  have htorn : (match Document.parse {} torn with
      | .error d => some (d.error.span, d.location)
      | .ok _ => none) = some (⟨4, 1⟩, ⟨2, 2⟩) := by decide +kernel
  have hsummed : (match Template.compile {} summed (.empty "Letters") with
      | .error d => some (d.error.span, d.location)
      | .ok _ => none) = some (⟨32, 1⟩, ⟨2, 20⟩) := by decide +kernel
  constructor
  · cases hparse : Document.parse {} torn with
    | ok document =>
        rw [hparse] at htorn
        cases htorn
    | error d =>
        rw [hparse] at htorn
        obtain ⟨hspan, hlocation⟩ := Prod.mk.inj (Option.some.inj htorn)
        obtain ⟨-, -, -, -, -, hpoints, -⟩ := Template.compile_in_range {} torn
        exact ⟨d, rfl, hpoints d hparse, hspan, hlocation⟩
  · cases hcompile : Template.compile {} summed (.empty "Letters") with
    | ok t =>
        rw [hcompile] at hsummed
        cases hsummed
    | error d =>
        rw [hcompile] at hsummed
        obtain ⟨hspan, hlocation⟩ := Prod.mk.inj (Option.some.inj hsummed)
        obtain ⟨-, -, -, -, -, -, hpoints⟩ := Template.compile_in_range {} summed
        exact ⟨d, rfl, hpoints _ d hcompile, hspan, hlocation⟩

end Letters

end TypedTemplate
