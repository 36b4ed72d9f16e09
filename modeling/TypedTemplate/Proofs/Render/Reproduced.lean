/-
# `TypedTemplate.Proofs.Render.Reproduced` — static templates give back their text

A template with a static document writes, token by token, the characters of its own text:
one space before an attribute's name stands for the blank space there, the blank space
before the `>` of a tag is left out, and so are the end tags that leave no trace
(`Template.render_reproduces`).  Nothing else is changed, whatever the template is rendered
for.
-/
import TypedTemplate.Proofs.Markup.Tree
import TypedTemplate.Proofs.Render.Static

namespace TypedTemplate

open Markup

/-- How the characters of a token are given back.  The blank space in an end tag stands before its
last character. -/
def Markup.Token.reproduced : Token → List Char → List Char
  | .attributeName _ _, cs => ' ' :: cs
  | .closeTag _ _, cs => (cs.dropLast.reverse.dropWhile Text.isBlank).reverse ++ ['>']
  | _, cs => cs

theorem Markup.closingName_toList (inner : String) :
    ('<' :: '/' :: (closingName inner).toList) =
      (('<' :: '/' :: inner.toList).reverse.dropWhile Text.isBlank).reverse := by
  have hslash : Text.isBlank '/' = false := by decide
  rw [closingName, String.toList_ofList, List.reverse_cons, List.reverse_cons, List.append_assoc,
    List.dropWhile_append]
  split
  · rename_i hempty
    rw [List.isEmpty_iff.1 hempty]
    simp [hslash]
  · simp

/-- A mark is written as its token is given back. -/
theorem Markup.Token.write_mark (token : Token) :
    token.stamp.mark.write.toList = token.reproduced token.chars := by
  cases token with
  | closeTag inner span =>
      have hname := closingName_toList inner
      have hchars : (Token.closeTag inner span).chars.dropLast = '<' :: '/' :: inner.toList := by
        rw [Token.chars, ← List.cons_append, ← List.cons_append, List.dropLast_concat]
      rw [Token.reproduced, hchars, ← hname]
      simp [Token.stamp, Mark.write]
  | attributeValue value span =>
      simp [Token.stamp, Mark.write, Token.reproduced, Token.chars, AttributeValue.chars]
  | _ => simp [Token.stamp, Mark.write, Token.reproduced, Token.chars]

/-- What is written of a document that was read: its tokens, given back one by one. -/
theorem Markup.Document.write_reproduced {config : Config} {source : Source} {document : Document}
    (h : Document.read config source = .ok document) : document.write.toList =
      (counted (scan source.chars).tokens).flatMap fun token => token.reproduced token.chars := by
  have hmarks : document.marks =
      (counted (scan source.chars).tokens).map fun token => token.stamp.mark := by
    rw [Document.marks, Node.marksAll_eq_stamps]
    show document.stamps.map Stamp.mark = _
    rw [(Document.follows_counted h).stamps, List.map_map]
    rfl
  rw [Document.toList_write, hmarks, written, List.flatMap_map]
  simp only [Token.write_mark]

/-- Every token of a text is cut out of it by its span. -/
theorem Markup.Document.slice_token {config : Config} {source : Source} {document : Document}
    (h : Document.read config source = .ok document) :
    ∀ token ∈ (scan source.chars).tokens,
      Text.slice? source.chars token.span = some token.chars := by
  obtain ⟨pos, b, hto, -⟩ := Document.read_tokens h
  have hzero : 0 = Text.size [] := rfl
  exact hto.slice hzero

theorem mapM_eq_map {α β : Type} {f : α → Option β} {g : α → β} {as : List α}
    (h : ∀ a ∈ as, f a = some (g a)) : as.mapM f = some (as.map g) := by
  induction as with
  | nil => rfl
  | cons a as ih =>
      obtain ⟨ha, has⟩ := List.forall_mem_cons.1 h
      rw [List.mapM_cons, ha, ih has]
      rfl

namespace Template

variable {config : Config} {source : Source} {context : ObjectTy} {t : Template}
  {document : Document}

/-- What a template with a static document writes is cut out of its own text, token by token.  Left
out are only the end tags of void elements that do not come right after the start tag, and empty
bodies, which have no characters. -/
theorem render_reproduces (hc : Template.compile config source context = .ok t)
    (hstrip : config.stripComments = false)
    (hread : Markup.Document.read config source = .ok document)
    (hstatic : document.isStatic = true) (v : Value) :
    ∃ out pieces, t.render v = .ok out ∧
      ((counted (scan source.chars).tokens).mapM fun token =>
        (Text.slice? source.chars token.span).map token.reproduced) = some pieces ∧
      out.toList = pieces.flatten := by
  have hslice : ∀ token ∈ counted (scan source.chars).tokens,
      (Text.slice? source.chars token.span).map token.reproduced =
        some (token.reproduced token.chars) := by
    intro token htoken
    rw [Document.slice_token hread token ((counted_sublist _).subset htoken), Option.map_some]
  refine ⟨document.write, _, render_eq_write hc hstrip hread hstatic v, mapM_eq_map hslice, ?_⟩
  rw [Document.write_reproduced hread, List.flatMap_def]

end Template

namespace Form

/-- A note with blank space in its tags; the last end tag leaves no trace. -/
def spaced : Source :=
  .ofString "spaced" "<p  class='note' >All<br></br >names<script></script></p ></br>"

theorem render_reproduces_spaced : ∃ t out, Template.compile {} spaced page = .ok t ∧
    t.render (.object []) = .ok out ∧
    out = "<p class='note'>All<br></br>names<script></script></p>" := by
  have hok : (Template.compile {} spaced page).toBool = true := by decide +kernel
  obtain ⟨t, document, hc, hread, hstatic, -⟩ := compiles (r := false) hok (by decide +kernel)
  obtain ⟨out, pieces, hout, hpieces, hflatten⟩ :=
    Template.render_reproduces hc rfl hread hstatic (.object [])
  have hwritten : ((counted (scan spaced.chars).tokens).mapM fun token =>
      (Text.slice? spaced.chars token.span).map token.reproduced).map List.flatten =
        some "<p class='note'>All<br></br>names<script></script></p>".toList := by decide +kernel
  rw [hpieces, Option.map_some, ← hflatten] at hwritten
  exact ⟨t, out, hc, hout, String.toList_inj.1 (Option.some.inj hwritten)⟩

end Form

end TypedTemplate
