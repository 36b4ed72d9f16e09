/-
# `TypedTemplate.Proofs.Fragment.Excerpts` — the expressions of a document, and where they stand

An expression stands in a text, between `#{` and `}`, or is the value of a dynamic attribute.
`Document.excerpts` lists them all, and no other part of a document is ever read as an
expression: whatever a compiled template evaluates was read from one of them
(`Fragment.Compiled.isFrom`).

An excerpt is a part of something whose place the tree remembers (`Node.excerpts_within`), so its
characters are in the template at its offset, and the spans of its tokens and of the nodes of
the expression that it is, which count from that offset, are places of the template
(`Excerpt.faithful_of_slice`).
-/
import TypedTemplate.Proofs.Expr.Nodes
import TypedTemplate.Proofs.Fragment.Compiled
import TypedTemplate.Proofs.Markup.Shapes
import TypedTemplate.Proofs.Markup.Spots

namespace TypedTemplate

open Markup Text

/-! ## The expressions of a document -/

/-- The expression of a part of character data. -/
def Interpolation.Part.excerpt? : Interpolation.Part → Option Excerpt
  | .code e => some e
  | .plain _ => none
  | .unterminated _ => none

/-- The values of the dynamic attributes of an element. -/
def Markup.Element.excerpts (e : Element) : List Excerpt :=
  (e.attributes.filter Attribute.dynamic).map Attribute.excerpt

mutual

/-- The expressions of a node and of all below it; what is in a raw text element is not one. -/
def Markup.Node.excerpts : Node → List Excerpt
  | .text content span =>
    (Interpolation.parts span.start content.toList).filterMap Interpolation.Part.excerpt?
  | .comment _ _ => []
  | .element e children =>
    e.excerpts ++ if isRawText e.name then [] else Node.excerptsAll children
termination_by structural node => node

/-- The expressions of some nodes. -/
def Markup.Node.excerptsAll : List Node → List Excerpt
  | [] => []
  | node :: rest => node.excerpts ++ Node.excerptsAll rest
termination_by structural nodes => nodes

end

/-- The expressions of a document. -/
def Markup.Document.excerpts (document : Document) : List Excerpt :=
  Node.excerptsAll document.children

/-! ## Excerpts stand in spots -/

/-- The excerpt is a part of what stands at the spot. -/
def Excerpt.Within (e : Excerpt) (spot : Spot) : Prop :=
  ∃ before after, spot.chars = before ++ e.chars ++ after ∧
    e.offset = spot.span.start + size before

theorem Excerpt.Within.slice {e : Excerpt} {spot : Spot} {cs : List Char} (h : e.Within spot)
    (hspot : slice? cs spot.span = some spot.chars) : slice? cs e.span = some e.chars := by
  obtain ⟨before, after, hchars, hoffset⟩ := h
  rw [Excerpt.span, hoffset]
  exact slice?_slice? hspot (slice?_eq_some.2 ⟨before, after, hchars, rfl⟩)

namespace Interpolation

/-- The place of a part that is not plain: that of the expression, or of the `#{` of one that does
not end. -/
def Part.spot? : Part → Option Spot
  | .plain _ => none
  | .code e => some ⟨e.span, e.chars⟩
  | .unterminated span => some ⟨span, opener⟩

theorem begins_eq_true {cs : List Char} (h : begins cs = true) : opener ++ cs.drop 2 = cs := by
  obtain ⟨rest, rfl⟩ := List.isPrefixOf_iff_prefix.1 h
  rfl

/-- The parts of character data stand in it. -/
theorem parts_spot {pos : Nat} {cs : List Char} {part : Part} {spot : Spot}
    (hpart : part ∈ parts pos cs) (hspot : part.spot? = some spot) : ∃ before after,
      cs = before ++ spot.chars ++ after ∧ spot.span = .ofChars (pos + size before) spot.chars := by
  have hopener : size opener = 2 := rfl
  fun_induction parts pos cs with
  | case1 pos cs hcut =>
      rw [List.mem_singleton.1 hpart] at hspot
      cases hspot
  | case2 pos cs before rest hcut opened hbody =>
      obtain ⟨rfl, -, hbegins, -⟩ := cut?_eq_some.1 hcut
      rcases List.mem_pair.1 hpart with rfl | rfl
      · cases hspot
      · cases hspot
        refine ⟨before, rest.drop 2, ?_, rfl⟩
        rw [List.append_assoc, begins_eq_true hbegins]
  | case3 pos cs before rest hcut opened body rest' hbody ih =>
      obtain ⟨rfl, -, hbegins, -⟩ := cut?_eq_some.1 hcut
      obtain ⟨hrest, -⟩ := untilBrace_eq_some.1 hbody
      have hcs : before ++ rest = before ++ opener ++ body ++ '\x7d' :: rest' := by
        rw [← begins_eq_true hbegins, hrest]
        simp
      rcases List.mem_cons.1 hpart with rfl | hpart
      · cases hspot
      · rcases List.mem_cons.1 hpart with rfl | hpart
        · cases hspot
          refine ⟨before ++ opener, '\x7d' :: rest', hcs, ?_⟩
          rw [size_append, hopener, ← Nat.add_assoc]
          rfl
        · obtain ⟨skipped, after, rfl, hspan⟩ := ih hpart
          refine ⟨before ++ opener ++ body ++ '\x7d' :: skipped, after, by rw [hcs]; simp, ?_⟩
          have hbrace : Char.utf8Size '\x7d' = 1 := rfl
          rw [hspan]
          simp only [size_append, size_cons, hopener, hbrace, opened, Nat.add_assoc]

theorem mem_excerpts {pos : Nat} {cs : List Char} {e : Excerpt} :
    e ∈ (parts pos cs).filterMap Part.excerpt? ↔ .code e ∈ parts pos cs := by
  rw [List.mem_filterMap]
  constructor
  · rintro ⟨part, hpart, he⟩
    cases part with
    | code => cases he; exact hpart
    | plain => cases he
    | unterminated => cases he
  · exact fun h => ⟨.code e, h, rfl⟩

end Interpolation

namespace Markup

theorem Element.mem_excerpts {e : Element} {a : Attribute} (ha : a ∈ e.attributes)
    (hdynamic : a.dynamic = true) : a.excerpt ∈ e.excerpts :=
  List.mem_map_of_mem (List.mem_filter.2 ⟨ha, hdynamic⟩)

/-- An attribute that has a place for a value has the value there. -/
theorem Attribute.Shaped.mem_spots {a : Attribute} (h : a.Shaped) {span : Span}
    (hspan : a.valueSpan? = some span) : ⟨span, (a.text?.getD "").toList⟩ ∈ a.spots := by
  cases hquote : a.quote with
  | bare =>
      rw [h.span.1 hquote] at hspan
      cases hspan
  | valued quote => simp [Attribute.spots, hquote, hspan]

/-- The value of an attribute stands where the tree says, and a missing one before the name. -/
theorem Attribute.Shaped.excerpt_within {a : Attribute} (h : a.Shaped) :
    ∃ spot ∈ a.spots, a.excerpt.Within spot := by
  cases hspan : a.valueSpan? with
  | some span =>
      refine ⟨_, h.mem_spots hspan, [], [], ?_, ?_⟩
      · simp [Attribute.excerpt]
      · simp [Attribute.excerpt, Attribute.valueSpan, hspan]
  | none =>
      have htext := h.bare.2 (h.span.2 hspan)
      refine ⟨⟨a.span, a.name.toList⟩, List.mem_cons_self, [], a.name.toList, ?_, ?_⟩
      · simp [Attribute.excerpt, htext]
      · simp [Attribute.excerpt, Attribute.valueSpan, hspan]

theorem Element.excerpts_within {element : Element} (h : ∀ a ∈ element.attributes, a.Shaped)
    {e : Excerpt} (he : e ∈ element.excerpts) : ∃ spot ∈ element.spots, e.Within spot := by
  obtain ⟨a, ha, rfl⟩ := List.mem_map.1 he
  have ha := (List.mem_filter.1 ha).1
  obtain ⟨spot, hspot, hwithin⟩ := (h a ha).excerpt_within
  exact ⟨spot, List.mem_cons_of_mem _ (List.mem_flatMap.2 ⟨a, ha, hspot⟩), hwithin⟩

mutual

/-- Every expression of a node is a part of something whose place the tree remembers. -/
theorem Node.excerpts_within {excerpt : Excerpt} : ∀ node : Node, node.Throughout Node.Shaped →
    excerpt ∈ node.excerpts → ∃ spot ∈ node.spots, excerpt.Within spot
  | .text content span, _, he => by
      obtain ⟨before, after, hchars, hspan⟩ :=
        Interpolation.parts_spot (Interpolation.mem_excerpts.1 he) rfl
      exact ⟨⟨span, content.toList⟩, List.mem_singleton_self _, before, after, hchars,
        congrArg Span.start hspan⟩
  | .comment content span, _, he => nomatch he
  | .element e children, h, he => by
      rcases List.mem_append.1 he with he | he
      · obtain ⟨spot, hspot, hwithin⟩ := Element.excerpts_within h.1.attributes he
        exact ⟨spot, List.mem_append_left _ hspot, hwithin⟩
      · split at he
        · cases he
        · obtain ⟨spot, hspot, hwithin⟩ := Node.excerptsAll_within children h.2 he
          exact ⟨spot, List.mem_append_right _ hspot, hwithin⟩

theorem Node.excerptsAll_within {excerpt : Excerpt} : ∀ nodes : List Node,
    Node.ThroughoutAll Node.Shaped nodes → excerpt ∈ Node.excerptsAll nodes →
      ∃ spot ∈ Node.spotsAll nodes, excerpt.Within spot
  | [], _, he => nomatch he
  | node :: rest, h, he => by
      rcases List.mem_append.1 he with he | he
      · obtain ⟨spot, hspot, hwithin⟩ := Node.excerpts_within node h.1 he
        exact ⟨spot, List.mem_append_left _ hspot, hwithin⟩
      · obtain ⟨spot, hspot, hwithin⟩ := Node.excerptsAll_within rest h.2 he
        exact ⟨spot, List.mem_append_right _ hspot, hwithin⟩

end

/-- The characters of every expression are in the template at its offset. -/
theorem Document.excerpts_slice {config : Config} {source : Source} {document : Document}
    (h : Document.read config source = .ok document) :
    ∀ e ∈ document.excerpts, slice? source.chars e.span = some e.chars := by
  intro e he
  obtain ⟨spot, hspot, hwithin⟩ := Node.excerptsAll_within _ (Document.read_shaped h) he
  exact hwithin.slice ((Document.spots_faithful h).1 spot hspot)

/-- What stands below a node has its expressions among those of the node. -/
theorem Stands.excerpts {config : Config} {outer scope : Scope} {nodes : List Node} {node : Node}
    (h : Stands config outer nodes scope node) : node.excerpts ⊆ Node.excerptsAll nodes := by
  have hmem : ∀ {nodes : List Node} {node : Node}, node ∈ nodes →
      node.excerpts ⊆ Node.excerptsAll nodes := by
    intro nodes node hnode
    induction nodes with
    | nil => cases hnode
    | cons first rest ih =>
        rcases List.mem_cons.1 hnode with rfl | hnode
        · exact List.subset_append_left _ _
        · exact List.Subset.trans (ih hnode) (List.subset_append_right _ _)
  induction h with
  | here hnode => exact hmem hnode
  | @inside outer inner scope nodes children e node helement hraw _ _ ih =>
      refine List.Subset.trans ih (List.Subset.trans ?_ (hmem helement))
      rw [Node.excerpts, hraw]
      exact List.subset_append_right _ _

end Markup

/-! ## What a compiled template evaluates -/

/-- The expression is what stands in the excerpt, or the list of the loop header there. -/
def Excerpt.Gives (e : Excerpt) (x : Expr) : Prop :=
  Expr.read e = .ok x ∨ ∃ name, LoopHeader.read e = .ok ⟨name, x⟩

/-- The term that a fragment evaluates itself, apart from those below it. -/
def Fragment.term? : Fragment → Option Term
  | .interpolation t _ => some t
  | .attribute _ t _ _ => some t
  | .loop head _ => some head.list
  | .conditional t _ => some t
  | .static _ => none
  | .sequence _ => none

/-- The term comes from one of the excerpts. -/
def Term.IsFrom (source : Source) (es : List Excerpt) (t : Term) : Prop :=
  ∃ e ∈ es, ∃ x scope, e.Gives x ∧ x.resolve source scope = .ok t

theorem Term.IsFrom.of_read {source : Source} {es : List Excerpt} {e : Excerpt} {scope : Scope}
    {t : Term} (he : e ∈ es) (h : Term.read source scope e = .ok t) : t.IsFrom source es := by
  obtain ⟨x, hread, hresolve⟩ := Except.bind_eq_ok.1 h
  exact ⟨e, he, x, scope, Or.inl hread, hresolve⟩

theorem Markup.Attribute.Stands.excerpt_mem {config : Config} {outer scope : Scope} {nodes : List Node}
    {a : Attribute} (h : a.Stands config outer nodes scope) (hdynamic : a.dynamic = true) :
    a.excerpt ∈ Node.excerptsAll nodes := by
  obtain ⟨around, e, children, hstands, -, ha⟩ := h
  exact hstands.excerpts (List.mem_append_left _ (Element.mem_excerpts ha hdynamic))

theorem Markup.Attribute.dynamic_of_control {config : Config} {a : Attribute} {control : Control}
    (h : a.control? config = some control) : a.dynamic = true := by
  rw [Attribute.control?] at h
  split at h
  · assumption
  · cases h

/-- The term of a compiled fragment comes from an expression of the nodes. -/
theorem Fragment.Compiled.isFrom {c : Compiler} {outer scope : Scope} {nodes : List Node}
    {f : Fragment} {t : Term} (h : f.Compiled c outer nodes scope) (ht : f.term? = some t) :
    t.IsFrom c.source (Node.excerptsAll nodes) := by
  have hcontrols {scope : Scope} {a : Attribute} {control : Control}
      (hstands : a.Stands c.config outer nodes scope) (hcontrol : a.control? c.config = some control)
      (hread : Term.read c.source scope a.excerpt = .ok t) :
      t.IsFrom c.source (Node.excerptsAll nodes) :=
    .of_read (hstands.excerpt_mem (Attribute.dynamic_of_control hcontrol)) hread
  cases h with
  | static => cases ht
  | sequence => cases ht
  | text hstands he hread _ =>
      cases ht
      exact .of_read (hstands.excerpts (Interpolation.mem_excerpts.2 he)) hread
  | content hstands hasks hread _ =>
      cases ht
      rcases hasks with ⟨hcontrol, -⟩ | ⟨hcontrol, -⟩
      · exact hcontrols hstands hcontrol hread
      · exact hcontrols hstands hcontrol hread
  | «attribute» hstands hdynamic _ _ hread _ =>
      cases ht
      exact .of_read (hstands.excerpt_mem hdynamic) hread
  | loop hstands ha hcontrol hhead _ =>
      cases ht
      obtain ⟨⟨name, list⟩, hread, -, hresolve, -⟩ := Compiler.loopOf_ok.1 hhead
      have hmem := Element.mem_excerpts ha (Attribute.dynamic_of_control hcontrol)
      exact ⟨_, hstands.excerpts (List.mem_append_left _ hmem), list, _, Or.inr ⟨name, hread⟩,
        hresolve⟩
  | conditional hstands hcontrol hread _ _ =>
      cases ht
      exact hcontrols hstands hcontrol hread

/-! ## Spans of tokens and of nodes -/

namespace Excerpt

open TypedTemplate.Expr (tokens Lexeme Phrase)

/-- The excerpt stands in the text where it says, and so do its tokens and the nodes of its
expression: the characters under a node are the tokens of the phrase that it is. -/
structure Faithful (cs : List Char) (e : Excerpt) : Prop where
  chars : slice? cs e.span = some e.chars
  tokens : ∀ ts, tokens e = .ok ts → ∀ t ∈ ts, ∃ taken, e.Covers t.span taken ∧
    slice? cs t.span = some taken ∧ ∃ rest, Lexeme taken t.kind rest
  nodes : ∀ x, e.Gives x → ∀ n ∈ x.nodes, ∃ (q : Phrase) (taken : List Char), q.denote = n ∧
    e.Covers n.span taken ∧ slice? cs n.span = some taken ∧
      Expr.tokens ⟨n.span.start, taken⟩ = .ok q.covered

/-- The expression that an excerpt gives is formed by some of its tokens. -/
theorem Gives.tokens {e : Excerpt} {x : Expr} (h : e.Gives x) :
    ∃ ts us, Expr.tokens e = .ok ts ∧ us <:+: ts ∧ Expr.ofTokens e us = .ok x := by
  rcases h with h | ⟨name, h⟩
  · obtain ⟨ts, hts, hx⟩ := Except.bind_eq_ok.1 h
    exact ⟨ts, ts, hts, List.infix_rfl, hx⟩
  · obtain ⟨ts, hts, hx⟩ := Except.bind_eq_ok.1 h
    unfold LoopHeader.ofTokens at hx
    split at hx
    · rename_i word span colon t us
      split at hx
      · obtain ⟨list, hlist, hheader⟩ := Except.map_eq_ok.1 hx
        cases hheader
        exact ⟨_, t :: us, hts, ⟨[⟨.name name, span⟩, ⟨.colon, colon⟩], [], by simp⟩, hlist⟩
      · cases hx
    · cases hx

theorem faithful_of_slice {cs : List Char} {e : Excerpt}
    (h : slice? cs e.span = some e.chars) : e.Faithful cs where
  chars := h
  tokens ts hts t ht := by
    obtain ⟨taken, hcovers, hlexeme⟩ := (Expr.tokens_eq_ok.1 hts).covers ht
    exact ⟨taken, hcovers, hcovers.slice h, hlexeme⟩
  nodes x hx n hn := by
    obtain ⟨ts, us, hts, hus, hx⟩ := hx.tokens
    obtain ⟨q, taken, rfl, -, -, hcovers, htokens⟩ := Expr.nodes_of_ofTokens hts hus hx n hn
    exact ⟨q, taken, rfl, hcovers, hcovers.slice h, htokens⟩

end Excerpt

/-- The tree of a template says where everything in it stands, and so do its expressions, which
are all that a template compiled from it evaluates. -/
theorem Markup.Document.parse_faithful {config : Config} {source : Source} {document : Document}
    (h : Document.parse config source = .ok document) :
    (∀ spot ∈ document.spots, slice? source.chars spot.span = some spot.chars) ∧
      document.spots.Pairwise Spot.Precedes ∧
      (∀ e ∈ document.excerpts, e.Faithful source.chars) ∧
      ∀ context t, Template.compile config source context = .ok t →
        ∀ found ∈ t.fragment.walk 0, ∀ term, found.2.term? = some term →
          term.IsFrom source document.excerpts := by
  have hread := Except.mapError_eq_ok.1 h
  obtain ⟨hspots, hordered⟩ := Document.spots_faithful hread
  refine ⟨hspots, hordered, fun e he => ?_, fun context t ht => ?_⟩
  · exact Excerpt.faithful_of_slice (Document.excerpts_slice hread e he)
  · obtain ⟨document', hparse, hcompiled⟩ := Template.compile_compiled ht
    cases h.symm.trans hparse
    intro found hfound term hterm
    obtain ⟨scope, hfrom⟩ := hcompiled.walk hfound
    exact hfrom.isFrom hterm

namespace Page

/-- A list with a text of two bytes for each letter. -/
def names : Source := .ofString "names" "<ul id='é'><!--ü--><li c:for=\"x:list\">ä #\x7b x \x7d</li></ul>"

/-- The theorem at the page, with all that its tree remembers the places of. -/
theorem parse_faithful_names : ∃ document, Document.parse {} names = .ok document ∧
    ((∀ spot ∈ document.spots, slice? names.chars spot.span = some spot.chars) ∧
      document.spots.Pairwise Spot.Precedes ∧
      (∀ e ∈ document.excerpts, e.Faithful names.chars) ∧
      ∀ context t, Template.compile {} names context = .ok t →
        ∀ found ∈ t.fragment.walk 0, ∀ term, found.2.term? = some term →
          term.IsFrom names document.excerpts) ∧
    document.spots.map (fun spot => (spot.span.start, String.ofList spot.chars)) =
      [(0, "<ul"), (4, "id"), (8, "é"), (12, "<!--ü-->"), (21, "<li"), (25, "c:for"),
        (32, "x:list"), (40, "ä #\x7b x \x7d")] ∧
    document.excerpts.map (fun e => (e.offset, String.ofList e.chars)) =
      [(32, "x:list"), (45, " x ")] := by
  have hplaces : (Document.parse {} names).toOption.map (fun document =>
      (document.spots.map (fun spot => (spot.span.start, String.ofList spot.chars)),
        document.excerpts.map (fun e => (e.offset, String.ofList e.chars)))) =
      some ([(0, "<ul"), (4, "id"), (8, "é"), (12, "<!--ü-->"), (21, "<li"), (25, "c:for"),
        (32, "x:list"), (40, "ä #\x7b x \x7d")], [(32, "x:list"), (45, " x ")]) := by
    decide +kernel
  obtain ⟨document, hparse, hplaces⟩ := Option.map_eq_some_iff.1 hplaces
  have hparse := Except.toOption_eq_some.1 hparse
  obtain ⟨hspots, hexcerpts⟩ := Prod.mk.inj hplaces
  exact ⟨document, hparse, Document.parse_faithful hparse, hspots, hexcerpts⟩

end Page

end TypedTemplate
