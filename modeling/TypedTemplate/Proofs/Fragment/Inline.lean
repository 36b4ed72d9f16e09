/-
# `TypedTemplate.Proofs.Fragment.Inline` — an expression as content and in text

`<p c:text="e"></p>` and `<p>#{e}</p>` write the value of the same expression, but they
reach it through different scanners.  A quoted value ends at its quote and nowhere else.
Text ends where a tag, an end tag or a comment begins, and that may be inside a string
literal of the expression; and an expression in text ends at the first brace outside its
string literals, where an expression in a value does not end.

Here are the trees of the two, what they compile to (`Paragraph.Writes`), and what can be
said of the expression if they do (`unmarked_of_inline`, `code_of_inline`,
`passes_of_replaced`).
-/
import TypedTemplate.Proofs.Fragment.Braces
import TypedTemplate.Proofs.Fragment.Checks
import TypedTemplate.Proofs.Markup.RoundTrip
import TypedTemplate.Proofs.Term.Bare

namespace TypedTemplate

open Markup

namespace Paragraph

/-! ## The two paragraphs -/

/-- A paragraph whose content is replaced by the value of an expression. -/
def replaced (name e : String) : Source := .ofString name ("<p c:text=\"" ++ e ++ "\"></p>")

/-- A paragraph with the expression in its text. -/
def inline (name e : String) : Source := .ofString name ("<p>#\x7b" ++ e ++ "\x7d</p>")

/-- The tokens of the first, apart from places. -/
def replacedTokens (e : String) : List Token :=
  [.openTag "p" noSpan, .attributeName "c:text" noSpan,
    .attributeValue ⟨e, .double, noSpan⟩ noSpan, .tagEnd noSpan, .closeTag "p" noSpan]

/-- The tokens of a paragraph with some text, apart from places. -/
def textTokens (content : String) : List Token :=
  [.openTag "p" noSpan, .tagEnd noSpan, .text content noSpan, .closeTag "p" noSpan]

theorem replacedTokens_legible {e : String} (hquote : '"' ∉ e.toList) :
    Legible .content (replacedTokens e) := by
  show Legible .content (.openTag (String.ofList ['p']) noSpan :: _)
  refine .openTag rfl (by simp) ?_
  show Legible _ (.attributeName (String.ofList ['c', ':', 't', 'e', 'x', 't']) noSpan :: _)
  refine .attributeName rfl ⟨rfl, rfl, rfl, rfl, rfl, rfl, trivial⟩ ?_
  refine .attributeValue hquote (by simp [Token.IsValue]) ?_
  exact .tagEnd (.closeTag (by decide) .nil)

theorem replacedTokens_apart (e : String) : Apart ((replacedTokens e).flatMap Token.marks) := by
  simp [Apart, replacedTokens, Token.marks, Mark.runsInto]

theorem replaced_chars (name e : String) :
    (replaced name e).chars = written ((replacedTokens e).flatMap Token.marks) := by
  have hname : closingName "p" = "p" := by decide
  simp [replaced, Source.ofString, replacedTokens, Token.marks, written, hname, Quote.mark]

theorem textTokens_legible {c : Char} {cs : List Char} (hclear : Text.Clear opens (c :: cs) []) :
    Legible .content (textTokens (String.ofList (c :: cs))) := by
  show Legible .content (.openTag (String.ofList ['p']) noSpan :: _)
  refine .openTag rfl (by simp) (.tagEnd ?_)
  exact .text hclear (by simp [Token.IsText]) (.closeTag (by decide) .nil)

theorem textTokens_apart (content : String) : Apart ((textTokens content).flatMap Token.marks) := by
  simp [Apart, textTokens, Token.marks, Mark.runsInto]

theorem inline_chars (name e : String) : (inline name e).chars =
    written ((textTokens ("#\x7b" ++ e ++ "\x7d")).flatMap Token.marks) := by
  have hname : closingName "p" = "p" := by decide
  simp [inline, Source.ofString, textTokens, Token.marks, written, hname]

section

variable {config : Config}

theorem directive_text (hmark : config.dynamicMark = "c:") :
    config.directive? "c:text" = some "text" := by
  rw [Config.directive?, hmark]
  decide +kernel

theorem replacedTokens_build (hmark : config.dynamicMark = "c:") (e : String) :
    Document.build? config (replacedTokens e) = some ⟨[.element
      ⟨"p", [⟨"c:text", some e, .valued .double, true, noSpan, some noSpan⟩], false, true, noSpan⟩
      []]⟩ := by
  refine Document.build?_eq_some.2 ⟨⟨[.element
    ⟨"p", [⟨"c:text", some e, .valued .double, true, noSpan, some noSpan⟩], false, true, noSpan⟩
    []], [], none⟩, ?_, ?_⟩
  · refine Builder.addAll_cons_ok.2 ⟨⟨[], [], some ⟨"p", noSpan, [], false⟩⟩, rfl, ?_⟩
    refine Builder.addAll_cons_ok.2
      ⟨⟨[], [], some ⟨"p", noSpan, [.ofName "c:text" true noSpan], true⟩⟩, ?_, rfl⟩
    simp only [Builder.add, directive_text hmark]
    rfl
  · rw [Builder.finish]
    cases config.strictEndTags <;> rfl

theorem textTokens_build (content : String) :
    Document.build? config (textTokens content) =
      some ⟨[.element ⟨"p", [], false, true, noSpan⟩ [.text content noSpan]]⟩ := by
  refine Document.build?_eq_some.2
    ⟨⟨[.element ⟨"p", [], false, true, noSpan⟩ [.text content noSpan]], [], none⟩, rfl, ?_⟩
  rw [Builder.finish]
  cases config.strictEndTags <;> rfl

theorem replaced_read (hmark : config.dynamicMark = "c:") (name : String) {e : String}
    (hquote : '"' ∉ e.toList) : ∃ a start,
      Document.read config (replaced name e) = .ok ⟨[.element ⟨"p", [a], false, true, start⟩ []]⟩ ∧
        a.control? config = some .text ∧ a.excerpt.chars = e.toList := by
  -- The tokens were chosen without places, so the tree is known up to places; no more is needed.
  obtain ⟨document, hread, hbare⟩ := Document.read_written (replacedTokens_legible hquote)
    (replacedTokens_apart e) (replacedTokens_build hmark e) (replaced_chars name e)
  obtain ⟨element, children, rfl, helement, hchildren⟩ := Document.bare_eq_element hbare
  obtain ⟨as, start, rfl, has⟩ := Element.bare_eq helement
  obtain ⟨⟨_, _, _, _, _, valueSpan?⟩, rfl, ha⟩ := List.map_eq_singleton_iff.1 has
  cases List.map_eq_nil_iff.1 hchildren
  cases valueSpan? with
  | none => cases ha
  | some valueSpan =>
      cases ha
      exact ⟨_, start, hread, Attribute.control?_eq_some.2 ⟨rfl, directive_text hmark⟩, rfl⟩

theorem inline_read (config : Config) (name : String) {e : String}
    (hclear : Text.Clear opens ('#' :: '\x7b' :: (e.toList ++ ['\x7d'])) []) : ∃ span start,
      Document.read config (inline name e) = .ok ⟨[.element ⟨"p", [], false, true, start⟩
        [.text ("#\x7b" ++ e ++ "\x7d") span]]⟩ := by
  have htext : "#\x7b" ++ e ++ "\x7d" =
      String.ofList ('#' :: '\x7b' :: (e.toList ++ ['\x7d'])) := by
    rw [← String.toList_inj]
    simp
  have hlegible := textTokens_legible hclear
  rw [← htext] at hlegible
  obtain ⟨document, hread, hbare⟩ := Document.read_written hlegible
    (textTokens_apart _) (textTokens_build _) (inline_chars name e)
  obtain ⟨element, children, rfl, helement, hchildren⟩ := Document.bare_eq_element hbare
  obtain ⟨as, start, rfl, has⟩ := Element.bare_eq helement
  cases List.map_eq_nil_iff.1 has
  obtain ⟨node, rfl, hnode⟩ := List.map_eq_singleton_iff.1 hchildren
  cases node with
  | text content span =>
      cases hnode
      exact ⟨span, start, hread⟩
  | comment content span => cases hnode
  | element e children => cases hnode

end

/-! ## What they compile to -/

section

variable {c : Compiler} {scope : Scope} {as : List Attribute} {span : Span} {children : List Node}
  {fs : List Fragment}

/-- The pieces of a paragraph. -/
def pieces (body : List Fragment) : List Fragment :=
  Compiler.staticPieces [.openTag "p", .tagEnd] ++ body ++ Compiler.staticPieces [.closeTag "p"]

theorem elementPieces_ok {ds : Directives} {compiled : Except ExprFault (List Fragment)}
    (has : c.attributesPieces scope as = .ok []) :
    c.elementPieces scope ⟨"p", as, false, true, span⟩ ds children compiled = .ok fs ↔
      ∃ body, c.bodyPieces scope ⟨"p", as, false, true, span⟩ ds children compiled = .ok body ∧
        fs = pieces body := by
  have hpieces (body : List Fragment) : Compiler.staticPieces [.openTag "p"] ++ [] ++
      (Compiler.staticPieces [.tagEnd] ++ body ++
        Compiler.staticPieces (Element.closeMarks ⟨"p", as, false, true, span⟩)) = pieces body := by
    simp [pieces, Compiler.staticPieces, Element.closeMarks]
  simp only [Compiler.elementPieces, Compiler.restPieces, has, Bool.false_eq_true, if_false,
    Except.bind_eq_ok, Except.pure_eq_ok, Except.ok.injEq]
  constructor
  · rintro ⟨_, rfl, _, ⟨body, hbody, rfl⟩, rfl⟩
    exact ⟨body, hbody, hpieces body⟩
  · rintro ⟨body, hbody, rfl⟩
    exact ⟨[], rfl, _, ⟨body, hbody, rfl⟩, hpieces body⟩

theorem replaced_pieces {a : Attribute} (ha : a.control? c.config = some .text) :
    c.nodesPieces scope [.element ⟨"p", [a], false, true, span⟩ []] = .ok fs ↔
      ∃ t, Term.read c.source scope a.excerpt = .ok t ∧ t.type.isScalar = true ∧
        fs = pieces [.interpolation t c.config.escaping] := by
  have hds : Directives.ofElement c.config ⟨"p", [a], false, true, span⟩ =
      .ok { text := some a } := by
    simp only [Directives.ofElement, Directives.gather, ha]
    rfl
  have hattributes : c.attributesPieces scope [a] = .ok [] := by
    obtain ⟨hdynamic, hname⟩ := Attribute.control?_eq_some.1 ha
    simp only [Compiler.attributesPieces, Compiler.attributePieces, hdynamic, hname]
    rfl
  have hraw : isRawText "p" = false := rfl
  rw [Compiler.nodesPieces_singleton, Compiler.nodePieces_of_unconditional hds rfl rfl,
    elementPieces_ok hattributes]
  simp only [Compiler.bodyPieces, Directives.content?, hraw, Compiler.nodesPieces,
    Except.bind_eq_ok, Compiler.checkScalar_ok]
  constructor
  · rintro ⟨_, ⟨t, ht, -, hs, hbody⟩, rfl⟩
    cases hbody
    exact ⟨t, ht, hs, rfl⟩
  · rintro ⟨t, ht, hs, rfl⟩
    exact ⟨_, ⟨t, ht, (), hs, rfl⟩, rfl⟩

theorem text_pieces {content : String} {span' : Span} :
    c.nodesPieces scope [.element ⟨"p", [], false, true, span⟩ [.text content span']] = .ok fs ↔
      ∃ body, c.partsPieces scope (Interpolation.parts span'.start content.toList) = .ok body ∧
        fs = pieces body := by
  have hds : Directives.ofElement c.config ⟨"p", [], false, true, span⟩ = .ok {} := rfl
  rw [Compiler.nodesPieces_singleton, Compiler.nodePieces_of_unconditional hds rfl rfl,
    elementPieces_ok rfl, Compiler.nodesPieces_singleton, Compiler.nodePieces]
  rfl

end

/-- The template writes a paragraph with the value of the expression, where the value's place
between the tags is made of it by `body`. -/
def Writes (config : Config) (source : Source) (context : ObjectTy) (e : String)
    (body : Fragment → List Fragment) : Prop :=
  ∃ pos, ∀ t, Template.compile config source context = .ok t ↔
    ∃ term, Term.read source ⟨context, []⟩ ⟨pos, e.toList⟩ = .ok term ∧
      term.type.isScalar = true ∧
        t = ⟨source, context, .ofPieces (pieces (body (.interpolation term config.escaping)))⟩

section

variable {config : Config} {context : ObjectTy} {name e : String}

theorem compile_read {source : Source} {document : Document} {t : Template}
    (hread : Document.read config source = .ok document) :
    Template.compile config source context = .ok t ↔ ∃ fs,
      (⟨config, source⟩ : Compiler).nodesPieces ⟨context, []⟩ document.children = .ok fs ∧
        t = ⟨source, context, .ofPieces fs⟩ := by
  rw [Template.compile_ok]
  simp only [hread, Compiler.compile, Except.bind_eq_ok, Except.pure_eq_ok, Except.ok.injEq]
  constructor
  · rintro ⟨_, _, rfl, ⟨fs, hfs, rfl⟩, rfl⟩
    exact ⟨fs, hfs, rfl⟩
  · rintro ⟨fs, hfs, rfl⟩
    exact ⟨document, _, rfl, ⟨fs, hfs, rfl⟩, rfl⟩

theorem replaced_writes (hmark : config.dynamicMark = "c:") (hquote : '"' ∉ e.toList) :
    Writes config (replaced name e) context e fun value => [value] := by
  obtain ⟨a, start, hread, hcontrol, hchars⟩ := replaced_read hmark name hquote
  have hexcerpt : a.excerpt = ⟨a.excerpt.offset, e.toList⟩ := by rw [← hchars]
  have hpieces (fs : List Fragment) :=
    @replaced_pieces ⟨config, replaced name e⟩ ⟨context, []⟩ start fs a hcontrol
  refine ⟨a.excerpt.offset, fun t => ?_⟩
  simp only [compile_read hread, hpieces, ← hexcerpt]
  constructor
  · rintro ⟨_, ⟨term, hterm, hscalar, rfl⟩, rfl⟩
    exact ⟨term, hterm, hscalar, rfl⟩
  · rintro ⟨term, hterm, hscalar, rfl⟩
    exact ⟨_, ⟨term, hterm, hscalar, rfl⟩, rfl⟩

theorem inline_writes (hclear : Text.Clear opens ('#' :: '\x7b' :: (e.toList ++ ['\x7d'])) [])
    (hpasses : Interpolation.Passes .code e.toList .code) :
    Writes config (inline name e) context e fun value => [.static "", value, .static ""] := by
  obtain ⟨span, start, hread⟩ := inline_read config name hclear
  have hparts : Interpolation.parts span.start ("#\x7b" ++ e ++ "\x7d").toList =
      [.plain [], .code ⟨span.start + 2, e.toList⟩, .plain []] := by
    rw [← Interpolation.parts_closed _ hpasses]
    simp [Interpolation.opener]
  refine ⟨span.start + 2, fun t => ?_⟩
  simp only [compile_read hread, text_pieces, hparts, Compiler.partsPieces_cons_ok,
    Compiler.plain_ok, Compiler.code_ok]
  constructor
  · rintro ⟨_, ⟨_, ⟨_, _, rfl, ⟨_, _, ⟨term, hterm, hscalar, rfl⟩,
      ⟨_, _, rfl, hnil, rfl⟩, rfl⟩, rfl⟩, rfl⟩, rfl⟩
    cases hnil
    exact ⟨term, hterm, hscalar, rfl⟩
  · rintro ⟨term, hterm, hscalar, rfl⟩
    exact ⟨_, ⟨_, ⟨_, _, rfl, ⟨_, _, ⟨term, hterm, hscalar, rfl⟩,
      ⟨_, _, rfl, rfl, rfl⟩, rfl⟩, rfl⟩, rfl⟩, rfl⟩

end

/-! ## One compiles if the other does -/

namespace Writes

variable {config : Config} {source source' : Source} {context : ObjectTy} {e : String}
  {body body' : Fragment → List Fragment}

theorem succeeds (h : Writes config source context e body)
    (h' : Writes config source' context e body')
    (hsucceeds : (Template.compile config source context).Succeeds) :
    (Template.compile config source' context).Succeeds := by
  obtain ⟨pos, hiff⟩ := h
  obtain ⟨pos', hiff'⟩ := h'
  obtain ⟨t, ht⟩ := hsucceeds
  obtain ⟨term, hterm, hscalar, -⟩ := (hiff t).1 ht
  have hoffset := Term.read_offset ⟨context, []⟩ source source' pos pos' e.toList
  rw [hterm] at hoffset
  obtain ⟨term', hterm', hbare⟩ := Option.map_eq_some_iff.1 hoffset.symm
  refine ⟨_, (hiff' _).2 ⟨term', Except.toOption_eq_some.1 hterm', ?_, rfl⟩⟩
  rw [← Term.bare_type, hbare, Term.bare_type]
  exact hscalar

end Writes

end Paragraph

/-! ## Where the scanners stop -/

/-- No tag, end tag or comment begins in the characters. -/
def Markup.Unmarked (cs : List Char) : Prop := ∀ s, s <:+ cs → opening? s = none

theorem Markup.clear_iff_unmarked {cs : List Char} : Text.Clear opens cs [] ↔ Unmarked cs := by
  induction cs with
  | nil =>
      constructor
      · rintro - s hs
        rw [List.suffix_nil.1 hs]
        rfl
      · intro
        trivial
  | cons c cs ih =>
      rw [Text.Clear, ih, List.append_nil, opens, Option.isSome_eq_false_iff,
        Option.isNone_iff_eq_none]
      constructor
      · rintro ⟨hhead, hrest⟩ s hs
        rcases List.suffix_cons_iff.1 hs with rfl | hs
        · exact hhead
        · exact hrest s hs
      · intro h
        exact ⟨h _ List.suffix_rfl, fun s hs => h s (hs.trans (List.suffix_cons c cs))⟩

/-- No markup begins in the text of an expression, whatever comes after its brace. -/
theorem Markup.Unmarked.clear {cs : List Char} (h : Unmarked cs) (rest : List Char) :
    Text.Clear opens ('#' :: '\x7b' :: (cs ++ ['\x7d'])) rest := by
  have hbrace : Text.Clear opens cs ('\x7d' :: rest) := by
    refine (clear_iff_unmarked.2 h).congr fun c s _ hc => ?_
    rw [List.append_nil] at hc
    rw [Bool.eq_false_iff]
    intro hopens
    rw [opens_before_of (by decide) (by decide) (by decide) rfl hopens] at hc
    cases hc
  exact ⟨rfl, rfl, Text.Clear.append.2 ⟨hbrace, rfl, trivial⟩⟩

namespace Paragraph

section

variable {config : Config} {source : Source} {context : ObjectTy} {scope : Scope}

theorem text_of_marks {nodes : List Node} {content : String} {more : List Mark}
    (h : nodes.flatMap Node.marks = .text content :: more) :
    ∃ span, Node.text content span ∈ nodes := by
  cases nodes with
  | nil => cases h
  | cons node rest =>
      cases node with
      | text content' span =>
          cases h
          exact ⟨span, List.mem_cons_self⟩
      | comment content' span => cases h
      | element e children =>
          rw [List.flatMap_cons, Node.marks_element] at h
          cases h

/-- The text after the start tag of a paragraph stands in the paragraph or after it. -/
theorem stands_of_marks {nodes : List Node} {content : String} {more : List Mark}
    (h : nodes.flatMap Node.marks = .openTag "p" :: .tagEnd :: .text content :: more) :
    ∃ span, Stands config scope nodes scope (.text content span) := by
  cases nodes with
  | nil => cases h
  | cons node rest =>
      cases node with
      | text content' span => cases h
      | comment content' span => cases h
      | element e children =>
          obtain ⟨name, as, selfClosed, hasEndTag, start⟩ := e
          rw [List.flatMap_cons, Node.marks_element, Element.openMarks] at h
          obtain ⟨hname, htag⟩ := List.cons.inj h
          cases hname
          cases as with
          | cons a as => cases htag
          | nil =>
              cases selfClosed with
              | true => cases htag
              | false =>
                  have htext : children.flatMap Node.marks ++
                      (Element.closeMarks ⟨"p", [], false, hasEndTag, start⟩ ++
                        rest.flatMap Node.marks) = .text content :: more := by
                    rw [← List.append_assoc]
                    exact (List.cons.inj htag).2
                  -- The next mark is of the children, or there are none and it is of the next node.
                  cases hchildren : children.flatMap Node.marks with
                  | cons m ms =>
                      rw [hchildren] at htext
                      cases htext
                      obtain ⟨span, hmem⟩ := text_of_marks hchildren
                      exact ⟨span, .inside List.mem_cons_self rfl (.plain (by simp)) (.here hmem)⟩
                  | nil =>
                      rw [hchildren, List.nil_append] at htext
                      cases hasEndTag with
                      | true => cases htext
                      | false =>
                          obtain ⟨span, hmem⟩ := text_of_marks htext
                          exact ⟨span, .here (List.mem_cons_of_mem _ hmem)⟩

/-- The marks of a document that begins with a paragraph and text in it. -/
theorem marks_of_read {document : Document} {c : Char} {cs rest : List Char}
    (hread : Document.read config source = .ok document)
    (hchars : source.chars = '<' :: 'p' :: '>' :: c :: (cs ++ rest))
    (hclear : Text.Clear opens (c :: cs) rest) (hrest : rest = [] ∨ opens rest = true) :
    ∃ more, document.children.flatMap Node.marks =
      .openTag "p" :: .tagEnd :: .text (String.ofList (c :: cs)) :: more := by
  obtain ⟨tokens, b, hreads, hadd, -, hmarks⟩ := Document.marks_read hread
  rw [hchars] at hreads
  have hname : Reads 0 .content ('<' :: 'p' :: ([] ++ '>' :: c :: (cs ++ rest))) _ _ _ :=
    .openTag rfl (by simp) rfl
  obtain ⟨tokens, rfl, hinTag⟩ := hreads.of_reads hname
  obtain ⟨tokens, rfl, hcontent⟩ := hinTag.of_reads .tagEnd_here
  obtain ⟨tokens, rfl, -⟩ := hcontent.of_reads (.text hclear hrest)
  obtain ⟨opened, hopened, hadd⟩ := Builder.addAll_cons_ok.1 hadd
  obtain ⟨ended, hended, hadd⟩ := Builder.addAll_cons_ok.1 hadd
  obtain ⟨next, hnext, hadd⟩ := Builder.addAll_cons_ok.1 hadd
  rw [Builder.kept_cons _ hopened rfl, Builder.kept_cons _ hended rfl,
    Builder.kept_cons _ hnext rfl, Document.marks, Node.marksAll_eq] at hmarks
  exact ⟨_, hmarks⟩

/-- A paragraph in which an expression begins and does not end before the text does. -/
theorem not_succeeds_of_open {body rest : List Char}
    (hchars : source.chars = '<' :: 'p' :: '>' :: '#' :: '\x7b' :: (body ++ rest))
    (hclear : Text.Clear opens ('#' :: '\x7b' :: body) rest)
    (hrest : rest = [] ∨ opens rest = true)
    (hopen : Interpolation.untilBrace .code body = none) :
    ¬ (Template.compile config source context).Succeeds := by
  intro hsucceeds
  obtain ⟨document, _, hread, -, -⟩ := Template.compile_ok.1 hsucceeds.choose_spec
  obtain ⟨more, hmarks⟩ := marks_of_read hread hchars hclear hrest
  obtain ⟨span, hstands⟩ := @stands_of_marks config ⟨context, []⟩ _ _ _ hmarks
  have hparse : Document.parse config source = .ok document := Except.mapError_eq_ok.2 hread
  have hchecks := (Template.compile_of_parse hparse).1.1 hsucceeds _ _ hstands
  have hparts : Interpolation.parts span.start (String.ofList ('#' :: '\x7b' :: body)).toList =
      [.plain [], .unterminated ⟨span.start, 2⟩] := by
    rw [String.toList_ofList]
    exact Interpolation.parts_open _ hopen
  rw [Node.Checks, hparts] at hchecks
  exact hchecks (.unterminated ⟨span.start, 2⟩) (by simp)

variable {name e : String} {place : Interpolation.Place}

/-- Where markup begins in the expression, the text of the paragraph ends inside it. -/
theorem unmarked_of_inline (hpasses : Interpolation.Passes .code e.toList place)
    (hsucceeds : (Template.compile config (inline name e) context).Succeeds) :
    Unmarked e.toList := by
  rw [← clear_iff_unmarked, ← Text.cut?_eq_none, Option.eq_none_iff_forall_ne_some]
  rintro ⟨body, rest⟩ hcut
  obtain ⟨he, -, hopens, hclear⟩ := Text.cut?_eq_some.1 hcut
  have hchars : (inline name e).chars =
      '<' :: 'p' :: '>' :: '#' :: '\x7b' :: (body ++ (rest ++ ['\x7d', '<', '/', 'p', '>'])) := by
    simp [inline, Source.ofString, he]
  have hbody : Text.Clear opens body (rest ++ ['\x7d', '<', '/', 'p', '>']) := by
    refine hclear.congr fun c s _ hc => ?_
    obtain ⟨d, more, rfl, -⟩ := opens_iff.1 hopens
    rw [Bool.eq_false_iff]
    intro h
    have hbefore : opens (c :: s) = true := opens_before h
    rw [← List.cons_append, opens_append hbefore] at hc
    cases hc
  rw [he] at hpasses
  obtain ⟨between, hbetween, -⟩ := Interpolation.Passes.append_iff.1 hpasses
  exact not_succeeds_of_open hchars ⟨rfl, rfl, hbody⟩ (Or.inr (opens_append hopens _))
    (Interpolation.untilBrace_eq_none.2 ⟨between, hbetween⟩) hsucceeds

/-- Where the expression ends in a string literal, so does the brace after it. -/
theorem code_of_inline (hpasses : Interpolation.Passes .code e.toList place)
    (hsucceeds : (Template.compile config (inline name e) context).Succeeds) :
    place = .code := by
  by_contra hplace
  have hchars : (inline name e).chars =
      '<' :: 'p' :: '>' :: '#' :: '\x7b' :: ((e.toList ++ ['\x7d']) ++ ['<', '/', 'p', '>']) := by
    simp [inline, Source.ofString]
  have hopen : Interpolation.untilBrace .code (e.toList ++ ['\x7d']) = none :=
    Interpolation.untilBrace_eq_none.2 ⟨_, Interpolation.Passes.append_iff.2
      ⟨place, hpasses, .cons (fun h => (hplace h).elim) .nil⟩⟩
  exact not_succeeds_of_open hchars ((unmarked_of_inline hpasses hsucceeds).clear _) (Or.inr rfl)
    hopen hsucceeds

/-- The value of a directive has tokens, so no brace in it ends an expression. -/
theorem passes_of_replaced (hmark : config.dynamicMark = "c:") (hquote : '"' ∉ e.toList)
    (hsucceeds : (Template.compile config (replaced name e) context).Succeeds) :
    Interpolation.Passes .code e.toList .code := by
  obtain ⟨pos, hiff⟩ := @replaced_writes config context name e hmark hquote
  obtain ⟨t, ht⟩ := hsucceeds
  obtain ⟨term, hterm, -⟩ := (hiff t).1 ht
  obtain ⟨_, hread, -⟩ := Except.bind_eq_ok.1 hterm
  obtain ⟨ts, htokens, -⟩ := Except.bind_eq_ok.1 hread
  exact Expr.tokensFrom_passes htokens

end

end Paragraph

end TypedTemplate
