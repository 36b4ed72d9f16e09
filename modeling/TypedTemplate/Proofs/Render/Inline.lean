/-
# `TypedTemplate.Proofs.Render.Inline` — an expression as content and in text, rendered

What is written for a term does not depend on places, except where an error says where it
was raised (`Fragment.written_interpolation_bare`).  So the paragraphs `<p c:text="e"></p>`
and `<p>#{e}</p>` are written alike if both compile.  The main statement,
`Template.content_iff_inline`, says besides when they do: if one of the two compiles, the
other does exactly if the expression has nothing in it at which the other scanner stops.
-/
import TypedTemplate.Proofs.Fragment.Inline
import TypedTemplate.Proofs.Fragment.Pieces

namespace TypedTemplate

open Markup

/-! ## What is written, without places -/

/-- An outcome in which the error does not say where it was raised. -/
def Outcome.bare (o : Outcome) : Outcome := { o with error := o.error.map Render.Error.bare }

/-- What is written, with a reason to stop that does not say where it was found. -/
def Written.bare (w : Written Render.Error) : Written Render.Error :=
  { w with halt := w.halt.map Render.Error.bare }

namespace Written

theorem bare_outcome (w : Written Render.Error) (stack : Stack) (out : String) :
    (w.outcome stack out).bare = w.bare.outcome stack out := rfl

theorem bare_andThen (a b : Written Render.Error) :
    (a.andThen b).bare = a.bare.andThen b.bare := by
  obtain ⟨text, halt⟩ := a
  cases halt <;> rfl

theorem bare_after {α : Type} (found : Except Render.Error α)
    (use : α → Written Render.Error) :
    (after found use).bare = after (found.mapError Render.Error.bare) fun a => (use a).bare := by
  cases found <;> rfl

end Written

/-- A value is written without places as that of the term without them. -/
theorem Fragment.written_interpolation_bare (t : Term) (escaping : Text.Escaping) (stack : Stack) :
    ((interpolation t escaping).written stack).bare =
      (interpolation t.bare escaping).written stack := by
  rw [written, written, Written.bare_after, Term.conforming_bare]
  rfl

/-! ## Two paragraphs with one value -/

theorem Paragraph.Writes.render_bare {config : Config} {source source' : Source}
    {context : ObjectTy} {e : String} {body body' : Fragment → List Fragment}
    (h : Writes config source context e body)
    (h' : Writes config source' context e body') (hname : source.name = source'.name)
    (hbody : ∀ f s, Fragment.writtenAll (body f) s = f.written s)
    (hbody' : ∀ f s, Fragment.writtenAll (body' f) s = f.written s) {t t' : Template}
    (ht : Template.compile config source context = .ok t)
    (ht' : Template.compile config source' context = .ok t') (out : String) (v : Value) :
    (t.renderTo out v).bare = (t'.renderTo out v).bare := by
  obtain ⟨pos, hiff⟩ := h
  obtain ⟨pos', hiff'⟩ := h'
  obtain ⟨term, hterm, -, rfl⟩ := (hiff t).1 ht
  obtain ⟨term', hterm', -, rfl⟩ := (hiff' t').1 ht'
  have hoffset := Term.read_offset ⟨context, []⟩ source source' pos pos' e.toList
  rw [hterm, hterm'] at hoffset
  have hbare : term.bare = term'.bare := Option.some.inj hoffset
  simp only [Template.renderTo, Template.name, hname, Fragment.render_eq, Fragment.written_ofPieces,
    pieces, Fragment.writtenAll_append, Written.bare_outcome, Written.bare_andThen, hbody, hbody',
    Fragment.written_interpolation_bare, hbare]

/-! ## The two together -/

/-- A template writes and fails as its outcome on nothing says. -/
theorem Template.render_bare {t t' : Template} {v : Value}
    (h : (t.renderTo "" v).bare = (t'.renderTo "" v).bare) :
    (t.render v).mapError Render.Error.bare = (t'.render v).mapError Render.Error.bare := by
  have hrender (t : Template) : (t.render v).mapError Render.Error.bare =
      (t.renderTo "" v).bare.error.elim (.ok (t.renderTo "" v).bare.out) .error := by
    simp only [render, Outcome.bare]
    cases (t.renderTo "" v).error <;> rfl
  rw [hrender, hrender, h]

open Paragraph in
/-- `<p c:text="e"></p>` and `<p>#{e}</p>` are the same where both compile.  If the first
compiles, so does the second, unless a tag, an end tag or a comment begins in the expression; if
the second compiles, so does the first, unless the expression has a brace outside its string
literals.  Rendered, both write the same, and if they fail they fail for the same reason. -/
theorem Template.content_iff_inline {config : Config} (hmark : config.dynamicMark = "c:")
    (name : String) {e : String} (hquote : '"' ∉ e.toList) (context : ObjectTy) :
    ((Template.compile config (replaced name e) context).Succeeds →
      ((Template.compile config (inline name e) context).Succeeds ↔ Unmarked e.toList)) ∧
    ((Template.compile config (inline name e) context).Succeeds →
      ((Template.compile config (replaced name e) context).Succeeds ↔
        ∃ place, Interpolation.Passes .code e.toList place)) ∧
    ∀ t t', Template.compile config (replaced name e) context = .ok t →
      Template.compile config (inline name e) context = .ok t' → ∀ v,
        (t.render v).mapError Render.Error.bare = (t'.render v).mapError Render.Error.bare ∧
          ∀ out, (t.renderTo out v).bare = (t'.renderTo out v).bare := by
  have hreplaced : Writes config (replaced name e) context e fun value => [value] :=
    replaced_writes hmark hquote
  have hinline (hunmarked : Unmarked e.toList)
      (hpasses : Interpolation.Passes .code e.toList .code) :
      Writes config (inline name e) context e fun value => [.static "", value, .static ""] :=
    inline_writes (hunmarked.clear []) hpasses
  refine ⟨fun h => ⟨fun h' => ?_, fun hunmarked => ?_⟩, fun h' => ⟨fun h => ?_, ?_⟩, ?_⟩
  · exact unmarked_of_inline (passes_of_replaced hmark hquote h) h'
  · exact hreplaced.succeeds (hinline hunmarked (passes_of_replaced hmark hquote h)) h
  · exact ⟨.code, passes_of_replaced hmark hquote h⟩
  · rintro ⟨place, hpasses⟩
    cases code_of_inline hpasses h'
    exact (hinline (unmarked_of_inline hpasses h') hpasses).succeeds hreplaced h'
  · intro t t' ht ht' v
    have hpasses := passes_of_replaced hmark hquote ⟨t, ht⟩
    have hwrites := hinline (unmarked_of_inline hpasses ⟨t', ht'⟩) hpasses
    have hrender (out : String) : (t.renderTo out v).bare = (t'.renderTo out v).bare :=
      hreplaced.render_bare hwrites rfl (by simp [Fragment.writtenAll])
        (by simp [Fragment.writtenAll, Fragment.written]) ht ht' out v
    exact ⟨Template.render_bare (hrender ""), hrender⟩

/-! ## A note -/

namespace Notes

open Paragraph

/-- A note has an owner. -/
def page : ObjectTy := (ObjectTy.empty "Note").withField "owner" .string

/-- A string literal with a quote, a brace and a `<` in it. -/
def quotation : String := "'it\\'s \x7d < 5'"

/-- A tag in a string literal ends text and not a value; a brace outside of one ends an expression
in text and is at fault in a value. -/
theorem content_ne_inline :
    ((Template.compile {} (replaced "note" "'<b>'") page).Succeeds ∧
      ¬ (Template.compile {} (inline "note" "'<b>'") page).Succeeds) ∧
    ¬ (Template.compile {} (replaced "note" "owner\x7d") page).Succeeds ∧
      (Template.compile {} (inline "note" "owner\x7d") page).Succeeds := by
  decide +kernel

/-- The theorem at the quotation, and at an expression in which a tag begins. -/
theorem content_iff_inline_note :
    (∃ t t', Template.compile {} (replaced "note" quotation) page = .ok t ∧
      Template.compile {} (inline "note" quotation) page = .ok t' ∧
        ∀ v out, (t.renderTo out v).bare = (t'.renderTo out v).bare) ∧
    ¬ Unmarked "'<b>'".toList := by
  have hquote : '"' ∉ quotation.toList ∧ '"' ∉ "'<b>'".toList := by decide
  have hcompile : (Template.compile {} (replaced "note" quotation) page).Succeeds ∧
      (Template.compile {} (inline "note" quotation) page).Succeeds ∧
      (Template.compile {} (replaced "note" "'<b>'") page).Succeeds ∧
      ¬ (Template.compile {} (inline "note" "'<b>'") page).Succeeds := by decide +kernel
  obtain ⟨⟨t, ht⟩, ⟨t', ht'⟩, htag, hnotag⟩ := hcompile
  refine ⟨⟨t, t', ht, ht', fun v => ?_⟩, fun hunmarked => ?_⟩
  · exact ((Template.content_iff_inline rfl "note" hquote.1 page).2.2 t t' ht ht' v).2
  · exact hnotag (((Template.content_iff_inline rfl "note" hquote.2 page).1 htag).2 hunmarked)

end Notes

end TypedTemplate
