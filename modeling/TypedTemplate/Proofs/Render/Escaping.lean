/-
# `TypedTemplate.Proofs.Render.Escaping` — no value can write markup

With the default policy the texts of values go into the output escaped, those of `html`
directives excepted.  So the tags and quotes of the output are those of the template and of
these directives, whatever the context is: if the texts of all other values are left out
(`Template.mutedTo`), the delimiters of the output are still the same, in the same order
(`Template.renderTo_delimiters`).  It does not matter whether the rendering comes to its end.
-/
import TypedTemplate.Proofs.Render.Scopes
import TypedTemplate.Proofs.Text.Escaped

namespace TypedTemplate

/-! ## Leaving out the texts of values -/

/-- A piece of output in writing, without the text of a value that is escaped. -/
def Chunk.muted : Chunk → String
  | .markup text => text
  | .value _ _ .html => ""
  | .value _ v .disabled => v.text

/-- The output of a rendering, with the text of every value that is escaped left out. -/
def Template.mutedTo (t : Template) (out : String) (context : Value) : String :=
  out ++ String.join ((t.chunks out context).map Chunk.muted)

theorem Chunk.text_html (t : Term) (v : Value) :
    (Chunk.value t v .html).text.toList = Text.escape v.text.toList := by
  simp [Chunk.text, Text.write, Text.escapeHtml]

theorem Chunk.text_delimiters (chunk : Chunk) :
    chunk.text.toList.filter Text.isDelimiter = chunk.muted.toList.filter Text.isDelimiter := by
  cases chunk with
  | markup text => rfl
  | value t v escaping =>
      cases escaping with
      | html =>
          rw [Chunk.text_html, Text.escape_delimiters]
          rfl
      | disabled => simp [Chunk.text, Chunk.muted, Text.write]

theorem Chunk.write_delimiters (chunks : List Chunk) :
    (Chunk.write chunks).toList.filter Text.isDelimiter =
      (String.join (chunks.map Chunk.muted)).toList.filter Text.isDelimiter := by
  induction chunks with
  | nil => rfl
  | cons chunk chunks ih =>
      rw [Chunk.write] at ih
      simp only [Chunk.write, List.map_cons, String.join_cons, String.toList_append,
        List.filter_append, ih, Chunk.text_delimiters]

/-! ## Where a value is not escaped -/

/-- What the value of a fragment goes through, if it writes one. -/
def Fragment.escaping? : Fragment → Option Text.Escaping
  | .interpolation _ escaping => some escaping
  | .attribute _ _ _ escaping => some escaping
  | _ => none

/-- The term is that of an `html` directive in the document. -/
def Markup.Document.HasHtml (c : Compiler) (context : ObjectTy) (document : Markup.Document)
    (t : Term) : Prop :=
  ∃ scope, ∃ a : Markup.Attribute, a.Stands c.config ⟨context, []⟩ document.children scope ∧
    a.control? c.config = some .html ∧ Term.read c.source scope a.excerpt = .ok t

namespace Fragment

variable {c : Compiler} {outer scope : Scope} {nodes : List Markup.Node} {f : Fragment}

/-- A fragment whose value is written as it is, under a policy that escapes. -/
theorem Compiled.of_disabled (hf : f.Compiled c outer nodes scope)
    (hpolicy : c.config.escaping = .html) (h : f.escaping? = some .disabled) :
    ∃ a : Markup.Attribute, ∃ t, f = .interpolation t .disabled ∧
      a.Stands c.config outer nodes scope ∧ a.control? c.config = some .html ∧
        Term.read c.source scope a.excerpt = .ok t := by
  cases hf with
  | text _ _ _ _ => simp [escaping?, hpolicy] at h
  | content hstands hasks ht _ =>
      rcases hasks with ⟨-, rfl⟩ | ⟨hasks, rfl⟩
      · simp [escaping?, hpolicy] at h
      · exact ⟨_, _, rfl, hstands, hasks, ht⟩
  | «attribute» _ _ _ _ _ _ => simp [escaping?, hpolicy] at h
  | _ => cases h

theorem escaping?_of_mem_chunks {s : Stack} {t : Term} {v : Value} {escaping : Text.Escaping}
    (h : .value t v escaping ∈ f.chunks s) : f.escaping? = some escaping := by
  cases f with
  | interpolation t' escaping' =>
      rw [chunks] at h
      cases hv : t'.conforming s with
      | error e => simp [hv] at h
      | ok w =>
          simp only [hv, List.mem_singleton, Chunk.value.injEq] at h
          rw [escaping?, h.2.2]
  | «attribute» name t' boolean escaping' =>
      rw [chunks] at h
      cases hv : t'.conforming s with
      | error e => simp [hv] at h
      | ok w =>
          simp only [hv] at h
          rw [escaping?, (mem_attributeChunks h).2.2.2]
  | _ => simp [chunks] at h

theorem term_of_mem_chunks {s : Stack} {t t' : Term} {v : Value}
    {escaping escaping' : Text.Escaping}
    (h : .value t v escaping ∈ chunks s (.interpolation t' escaping')) : t = t' := by
  rw [chunks] at h
  cases hv : t'.conforming s with
  | error e => simp [hv] at h
  | ok w =>
      simp only [hv, List.mem_singleton, Chunk.value.injEq] at h
      exact h.1

end Fragment

/-! ## Templates -/

namespace Template

variable {config : Config} {source : Source} {context : ObjectTy} {t : Template}

/-- The delimiters of an output are those of the output in which the texts of values are left
out. -/
theorem renderTo_delimiters (t : Template) (out : String) (v : Value) :
    (t.renderTo out v).out.toList.filter Text.isDelimiter =
      (t.mutedTo out v).toList.filter Text.isDelimiter := by
  rw [renderTo_out, mutedTo, String.toList_append, String.toList_append, List.filter_append,
    List.filter_append, Chunk.write_delimiters]

/-- Under the policy that escapes, whatever the context is and whether or not the rendering comes
to its end: the output is made of markup and of texts of values; its delimiters, in their
order, are those of the output without the values that are not of an `html` directive; of
these values, each ampersand begins an entity; and nothing but an `html` directive is compiled
to a fragment that does not escape, or writes a value as it is. -/
theorem renderTo_escapes (hc : Template.compile config source context = .ok t)
    (hpolicy : config.escaping = .html) (out : String) (v : Value) :
    (t.renderTo out v).out = out ++ Chunk.write (t.chunks out v) ∧
    (t.renderTo out v).out.toList.filter Text.isDelimiter =
      (t.mutedTo out v).toList.filter Text.isDelimiter ∧
    (∀ term value, .value term value .html ∈ t.chunks out v →
      Text.AmpersandsBegin (Chunk.value term value .html).text.toList) ∧
    ∃ document, Markup.Document.parse config source = .ok document ∧
      (∀ depth f, (depth, f) ∈ t.fragment.walk 0 → f.escaping? = some .disabled →
        ∃ term, f = .interpolation term .disabled ∧
          document.HasHtml ⟨config, source⟩ context term) ∧
      ∀ term value, .value term value .disabled ∈ t.chunks out v →
        document.HasHtml ⟨config, source⟩ context term := by
  obtain ⟨document, hparse, hcompiled⟩ := Template.compile_compiled hc
  refine ⟨t.renderTo_out out v, t.renderTo_delimiters out v, ?_, document, hparse, ?_, ?_⟩
  · intro term value _
    rw [Chunk.text_html]
    exact Text.escape_ampersands _
  · intro depth f hmem hf
    obtain ⟨scope, hscope⟩ := hcompiled.walk hmem
    obtain ⟨a, term, heq, hstands, hasks, hread⟩ := hscope.of_disabled hpolicy hf
    exact ⟨term, heq, scope, a, hstands, hasks, hread⟩
  · intro term value hmem
    obtain ⟨visit, hvisit, hchunk⟩ := List.mem_flatMap.1 hmem
    have hvisited := (visits_fit hc hcompiled out v visit hvisit).compiled
    obtain ⟨a, term', hf, hstands, hasks, hread⟩ :=
      hvisited.of_disabled hpolicy (Fragment.escaping?_of_mem_chunks hchunk)
    rw [Visit.chunks, hf] at hchunk
    rw [Fragment.term_of_mem_chunks hchunk]
    exact ⟨visit.scope, a, hstands, hasks, hread⟩

end Template

/-! ## A guest who writes markup -/

namespace Comments

/-- A comment has an author and a text, and the page a banner. -/
def comment : ObjectTy :=
  ((ObjectTy.empty "Comment").withField "author" .string).withField "text" .string

/-- The page of comments. -/
def page : ObjectTy := ((ObjectTy.empty "Page").withField "banner" .string).withField "comments"
  (.list (.object comment))

/-- Values in an attribute, in a text and in place of a content. -/
def source : Source := .ofString "comments"
  "<b c:html='banner'></b><p c:for='m:comments' c:title='m.author'>#\x7bm.text\x7d</p>"

/-- The banner is markup, and so are the author and the text of a comment. -/
def context : Value := .object [("banner", .string "<i>"), ("comments",
  .list [.object [("author", .string "\""), ("text", .string "<&lt;")]])]

/-- The output of a rendering, with the texts of values that are escaped and without them. -/
def outputs (t : Template) : String × String :=
  ((t.renderTo "" context).out, t.mutedTo "" context)

/-- The theorem at a page with such a comment. -/
theorem renderTo_escapes_comments : ∃ t, Template.compile {} source page = .ok t ∧
    outputs t = ("<b><i></b><p title=\"&quot;\">&lt;&amp;lt;</p>", "<b><i></b><p title=\"\"></p>") ∧
    (outputs t).1.toList.filter Text.isDelimiter = (outputs t).2.toList.filter Text.isDelimiter := by
  have hok : (Template.compile {} source page).toOption.map outputs =
      some ("<b><i></b><p title=\"&quot;\">&lt;&amp;lt;</p>", "<b><i></b><p title=\"\"></p>") := by
    decide +kernel
  cases hc : Template.compile {} source page with
  | error e =>
      rw [hc] at hok
      cases hok
  | ok t =>
      rw [hc] at hok
      exact ⟨t, rfl, Option.some.inj hok, (Template.renderTo_escapes hc rfl "" context).2.1⟩

end Comments

end TypedTemplate
