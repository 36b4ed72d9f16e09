/-
# `TypedTemplate.Proofs.Fragment.Bodies` — where the value that replaces a content is written

An element with the directive `text` or `html` is compiled to its start tag, the value, and
its end tag if it has one, whatever its name is.  Whether the value then stands in the
element is for a reader to say, and a reader goes by the name: after the start tag of a void
element it is outside again.  `Encloses` and `Precedes` say these two things of a name, in
terms of the builder.

The compiler looks at the tag alone and refuses one that closes itself; it does not know the void
elements.  So of the elements whose content is replaced just the void ones have no place
for the value, which comes after them (`Template.compile_replaces`).

The directives may stand at any depth.  What a document needs to compile is asked of all
that stands in it, and every element below its top does (`Node.walk_stands`).
-/
import TypedTemplate.Proofs.Fragment.Checks
import TypedTemplate.Proofs.Markup.Shapes

namespace TypedTemplate

open Markup

namespace Markup

/-! ## After a start tag -/

/-- The name or the value of an attribute. -/
def Token.isAttributePart : Token → Bool
  | .attributeName _ _ | .attributeValue _ _ => true
  | _ => false

/-- The tokens of a start tag that does not close itself. -/
def IsStartTag (name : String) (tokens : List Token) : Prop :=
  ∃ span parts stop, (∀ part ∈ parts, part.isAttributePart = true) ∧
    tokens = .openTag name span :: (parts ++ [.tagEnd stop])

/-- What comes after a start tag of the name stands in its element. -/
def Encloses (config : Config) (name : String) : Prop :=
  ∀ b b' tokens, IsStartTag name tokens → Builder.addAll config b tokens = .ok b' →
    ∃ e : Element, e.name = name ∧ ∀ node,
      b'.append node = { b with opened := ⟨e, [node]⟩ :: b.opened, tag := none }

/-- What comes after a start tag of the name stands beside its element, which is empty. -/
def Precedes (config : Config) (name : String) : Prop :=
  ∀ b b' tokens, IsStartTag name tokens → Builder.addAll config b tokens = .ok b' →
    ∃ e : Element, e.name = name ∧ ∀ node,
      b'.append node = (Builder.append { b with tag := none } (.element e [])).append node

variable {config : Config} {name : String} {b b' : Builder}

/-- Attributes change nothing but the tag, and not its name. -/
theorem Builder.addAll_parts : ∀ {parts tokens : List Token} {b b' : Builder} {tag : TagSoFar},
    (∀ part ∈ parts, part.isAttributePart = true) → b.tag = some tag →
      b.addAll config (parts ++ tokens) = .ok b' → ∃ tag' : TagSoFar, tag'.name = tag.name ∧
        Builder.addAll config { b with tag := some tag' } tokens = .ok b'
  | [], tokens, b, b', tag, _, htag, hadd => by
      refine ⟨tag, rfl, ?_⟩
      rw [← htag]
      exact hadd
  | part :: parts, tokens, b, b', tag, hparts, htag, hadd => by
      obtain ⟨hpart, hparts⟩ := List.forall_mem_cons.1 hparts
      obtain ⟨next, hnext, hadd⟩ := addAll_cons_ok.1 hadd
      have hstep : ∃ tag' : TagSoFar, next = { b with tag := some tag' } ∧
          tag'.name = tag.name := by
        cases add_eq_ok.1 hnext with
        | attributeName htag' =>
            cases htag.symm.trans htag'
            exact ⟨_, rfl, rfl⟩
        | attributeValue htag' hvalue =>
            cases htag.symm.trans htag'
            obtain ⟨-, last, earlier, -, rfl⟩ := addValue?_eq_some.1 hvalue
            exact ⟨_, rfl, rfl⟩
        | stray hnone =>
            rw [htag] at hnone
            cases hnone
        | _ => cases hpart
      obtain ⟨tag', rfl, hname⟩ := hstep
      obtain ⟨tag'', hname', hadd⟩ := addAll_parts hparts rfl hadd
      exact ⟨tag'', hname'.trans hname, hadd⟩

/-- A start tag enters an element of its name. -/
theorem IsStartTag.addAll {tokens : List Token} (h : IsStartTag name tokens)
    (hadd : b.addAll config tokens = .ok b') : ∃ e : Element, e.name = name ∧
      e.selfClosed = false ∧ b' = Builder.enter { b with tag := none } e := by
  obtain ⟨span, parts, stop, hparts, rfl⟩ := h
  obtain ⟨next, hnext, hadd⟩ := Builder.addAll_cons_ok.1 hadd
  obtain ⟨tag, htag, rfl⟩ : ∃ tag : TagSoFar, tag.name = name ∧
      next = { b with tag := some tag } := by
    cases add_eq_ok.1 hnext with
    | openTag => exact ⟨_, rfl, rfl⟩
    | stray _ hpart => cases hpart
  obtain ⟨tag', hname, hadd⟩ := Builder.addAll_parts hparts rfl hadd
  obtain ⟨last, hlast, hnil⟩ := Builder.addAll_cons_ok.1 hadd
  cases hnil
  cases add_eq_ok.1 hlast with
  | tagEnd htag' =>
      cases htag'
      exact ⟨tag'.element false, hname.trans htag, rfl, rfl⟩
  | stray hnone => cases hnone

/-- The shortest start tag of a void element is taken, and leaves the element without children. -/
theorem addAll_void (hvoid : isVoid name = true) (span : Span) :
    Builder.addAll config {} [.openTag name span, .tagEnd span] =
      .ok (Builder.append {} (.element ⟨name, [], false, false, span⟩ [])) := by
  have hcheck : ∀ void ∈ voidElements, checkTagName void span = .ok () := by
    have hall : (voidElements.all fun void => !void.isEmpty && !void.toList.any Text.isUppercase) =
        true := by decide +kernel
    intro void hmem
    have hname := List.all_eq_true.1 hall void hmem
    rw [Bool.and_eq_true, Bool.not_eq_true', Bool.not_eq_true'] at hname
    rw [checkTagName, hname.1, hname.2]
    rfl
  have hmem : name ∈ voidElements := by simpa [isVoid] using hvoid
  have henter : Builder.enter {} ⟨name, [], false, false, span⟩ =
      Builder.append {} (.element ⟨name, [], false, false, span⟩ []) := if_pos hvoid
  rw [← henter]
  exact Builder.addAll_cons_ok.2 ⟨_, add_eq_ok.2 (.openTag (hcheck name hmem)),
    Builder.addAll_cons_ok.2 ⟨_, add_eq_ok.2 (.tagEnd rfl rfl), rfl⟩⟩

/-- Only the elements that are not void enclose what comes after their start tags. -/
theorem encloses_iff : Encloses config name ↔ isVoid name = false := by
  constructor
  · intro h
    rw [Bool.eq_false_iff]
    intro hvoid
    obtain ⟨e, -, hopened⟩ := h {} _ _ ⟨⟨0, 0⟩, [], ⟨0, 0⟩, List.forall_mem_nil _, rfl⟩
      (addAll_void hvoid ⟨0, 0⟩)
    have hnil := congrArg Builder.opened (hopened (.text "" ⟨0, 0⟩))
    cases hnil
  · intro hvoid b b' tokens htag hadd
    obtain ⟨e, rfl, hself, rfl⟩ := htag.addAll hadd
    refine ⟨e, rfl, fun node => ?_⟩
    rw [Builder.enter, hself, hvoid]
    rfl

theorem precedes_of_isVoid (hvoid : isVoid name = true) : Precedes config name := by
  intro b b' tokens htag hadd
  obtain ⟨e, rfl, hself, rfl⟩ := htag.addAll hadd
  refine ⟨e, rfl, fun node => ?_⟩
  rw [Builder.enter, hself, hvoid]
  rfl

/-! ## Elements of a document -/

/-- There are no elements among texts. -/
theorem Node.not_mem_walkAll {e : Element} {children : List Node} : ∀ {nodes : List Node}
    {depth at' : Nat}, (∀ n ∈ nodes, n.IsText) → (at', .element e children) ∉ walkAll depth nodes
  | [], _, _, _ => List.not_mem_nil
  | .text content span :: nodes, depth, at', h => by
      intro hmem
      rcases List.mem_cons.1 hmem with heq | hmem
      · cases heq
      · exact not_mem_walkAll (fun n hn => h n (List.mem_cons_of_mem _ hn)) hmem
  | .comment content span :: nodes, depth, at', h => (h _ List.mem_cons_self).elim
  | .element e' children' :: nodes, depth, at', h => (h _ List.mem_cons_self).elim

/-- What stands in a node stands wherever the node does. -/
theorem Stands.trans {outer scope inner : Scope} {nodes : List Node} {node below : Node}
    (h : Stands config outer nodes scope node) (hbelow : Stands config scope [node] inner below) :
    Stands config outer nodes inner below := by
  induction h with
  | here hmem => exact hbelow.mono (by simpa using hmem)
  | inside hmem hraw hopens _ ih => exact .inside hmem hraw hopens (ih hbelow)

section

variable {e : Element} {children : List Node}

mutual

/-- If all that stands in a node checks, every element below it stands there. -/
theorem Node.walk_stands : ∀ (node : Node) (scope : Scope) {depth d : Nat},
    node.WellFormed → Compiler.ChecksAll config scope [node] →
      (d, .element e children) ∈ node.walk depth →
        (Node.element e children).WellFormed ∧
          ∃ inner, Stands config scope [node] inner (.element e children)
  | .text content span, _, _, _, _, _, hmem => by
      cases List.mem_singleton.1 hmem
  | .comment content span, _, _, _, _, _, hmem => by
      cases List.mem_singleton.1 hmem
  | .element e' children', scope, depth, d, hnode, hchecks, hmem => by
      have hhere : Stands config scope [.element e' children'] scope (.element e' children') :=
        .here (List.mem_singleton_self _)
      rcases List.mem_cons.1 hmem with heq | hmem
      · cases heq
        exact ⟨hnode, scope, hhere⟩
      · cases hraw : isRawText e'.name with
        -- the body of a raw text element is not compiled, but it holds no elements
        | true => exact (Node.not_mem_walkAll (hnode.1.raw hraw) hmem).elim
        | false =>
            obtain ⟨inner, hopens, -⟩ := (hchecks scope _ hhere).inside
            have hchildren : Compiler.ChecksAll config inner children' := fun deeper n hn =>
              hchecks deeper n (Stands.element_iff.2 (Or.inr ⟨hraw, inner, hopens, hn⟩))
            obtain ⟨hwell, deeper, hstands⟩ :=
              Node.walkAll_stands children' inner hnode.2 hchildren hmem
            exact ⟨hwell, deeper, Stands.element_iff.2 (Or.inr ⟨hraw, inner, hopens, hstands⟩)⟩

theorem Node.walkAll_stands : ∀ (nodes : List Node) (scope : Scope) {depth d : Nat},
    Node.WellFormedAll nodes → Compiler.ChecksAll config scope nodes →
      (d, .element e children) ∈ Node.walkAll depth nodes →
        (Node.element e children).WellFormed ∧
          ∃ inner, Stands config scope nodes inner (.element e children)
  | [], _, _, _, _, _, hmem => by cases hmem
  | node :: nodes, scope, depth, d, ⟨hnode, hnodes⟩, hchecks, hmem => by
      rcases List.mem_append.1 hmem with hmem | hmem
      · obtain ⟨hwell, inner, hstands⟩ := Node.walk_stands node scope hnode
          (fun inner n hn => hchecks inner n (Stands.cons_iff.2 (Or.inl hn))) hmem
        exact ⟨hwell, inner, Stands.cons_iff.2 (Or.inl hstands)⟩
      · obtain ⟨hwell, inner, hstands⟩ := Node.walkAll_stands nodes scope hnodes
          (fun inner n hn => hchecks inner n (Stands.cons_iff.2 (Or.inr hn))) hmem
        exact ⟨hwell, inner, Stands.cons_iff.2 (Or.inr hstands)⟩

end

end

end Markup

/-! ## The pieces of an element whose content is replaced -/

/-- Some pieces in any number of loops and conditions. -/
inductive Around (inner : List Fragment) : List Fragment → Prop where
  | here : Around inner inner
  | conditional {pieces : List Fragment} (t : Term) :
      Around inner pieces → Around inner [.conditional t (.ofPieces pieces)]
  | loop {pieces : List Fragment} (head : Loop) :
      Around inner pieces → Around inner [.loop head (.ofPieces pieces)]

namespace Compiler

variable {c : Compiler} {scope : Scope} {e : Element} {children : List Node} {a : Attribute}

/-- The attribute replaces the content, and `escaping` is what its value goes through. -/
def Asks (config : Config) (a : Attribute) (escaping : Text.Escaping) : Prop :=
  (a.control? config = some .text ∧ escaping = config.escaping) ∨
    (a.control? config = some .html ∧ escaping = .disabled)

/-- The pieces of the element are its start tag, the value of `a` and its end tag, in the loop and
the condition that it may have. -/
def Writes (c : Compiler) (scope : Scope) (e : Element) (children : List Node) (a : Attribute) :
    Prop :=
  ∃ inner attributes t escaping pieces, e.Opens c.config scope inner ∧
    c.attributesPieces inner e.attributes = .ok attributes ∧ Asks c.config a escaping ∧
    Term.read c.source inner a.excerpt = .ok t ∧ t.type.isScalar = true ∧
    c.nodePieces scope (.element e children) = .ok pieces ∧
    Around (staticPieces [.openTag e.name] ++ attributes ++
      (staticPieces [.tagEnd] ++ [.interpolation t escaping] ++ staticPieces e.closeMarks)) pieces

section

variable {ds : Directives} {compiled : Except ExprFault (List Fragment)} {fs : List Fragment}
  {escaping : Text.Escaping}

/-- The value stands between the tags. -/
theorem elementPieces_content (hcontent : ds.content? c.config = some (a, escaping))
    (h : c.elementPieces scope e ds children compiled = .ok fs) :
    e.selfClosed = false ∧ ∃ attributes t, c.attributesPieces scope e.attributes = .ok attributes ∧
      Term.read c.source scope a.excerpt = .ok t ∧ t.type.isScalar = true ∧
      fs = staticPieces [.openTag e.name] ++ attributes ++
        (staticPieces [.tagEnd] ++ [.interpolation t escaping] ++ staticPieces e.closeMarks) := by
  obtain ⟨attributes, rest, hattributes, rfl, ⟨-, hnone, -⟩ | ⟨hself, body, hbody, rfl⟩⟩ :=
    elementPieces_ok h
  · cases hcontent.symm.trans hnone
  · rcases bodyPieces_ok hbody with
      ⟨a', escaping', t, hcontent', ht, hs, rfl⟩ | ⟨hnone, -⟩ | ⟨hnone, -⟩
    · cases hcontent.symm.trans hcontent'
      exact ⟨hself, attributes, t, hattributes, ht, hs, rfl⟩
    · cases hcontent.symm.trans hnone
    · cases hcontent.symm.trans hnone

/-- A condition is around the tags. -/
theorem conditionalPieces_around (h : c.conditionalPieces scope e ds children compiled = .ok fs) :
    ∃ inner, c.elementPieces scope e ds children compiled = .ok inner ∧ Around inner fs := by
  rcases conditionalPieces_ok h with ⟨-, he⟩ | ⟨a, t, pieces, -, -, hp, rfl⟩
  · exact ⟨fs, he, .here⟩
  · exact ⟨pieces, hp, .conditional t .here⟩

/-- A loop is around the condition. -/
theorem elementNode_around (h : c.nodePieces scope (.element e children) = .ok fs) :
    ∃ ds scope' inner, Directives.ofElement c.config e = .ok ds ∧ e.Opens c.config scope scope' ∧
      c.elementPieces scope' e ds children (c.nodesPieces scope' children) = .ok inner ∧
      Around inner fs := by
  obtain ⟨ds, hds, ⟨hnone, hp⟩ | ⟨a, head, pieces, ha, hhead, hp, rfl⟩⟩ := elementNode_ok h
  · obtain ⟨inner, hinner, haround⟩ := conditionalPieces_around hp
    exact ⟨ds, scope, inner, hds, (opens_iff hds).2 (Or.inl ⟨hnone, rfl⟩), hinner, haround⟩
  · obtain ⟨inner, hinner, haround⟩ := conditionalPieces_around hp
    exact ⟨ds, _, inner, hds, (opens_iff hds).2 (Or.inr ⟨a, head, ha, hhead, rfl⟩), hinner,
      .loop head haround⟩

end

/-- An element whose content is replaced has a tag that does not close itself. -/
theorem elementNode_writes (hmem : a ∈ e.attributes)
    (hasks : a.control? c.config = some .text ∨ a.control? c.config = some .html)
    (h : (c.nodePieces scope (.element e children)).Succeeds) :
    e.selfClosed = false ∧ c.Writes scope e children a := by
  obtain ⟨pieces, hpieces⟩ := h
  obtain ⟨ds, inner, fs, hds, hopens, hfs, haround⟩ := elementNode_around hpieces
  obtain ⟨escaping, hasks⟩ : ∃ escaping, Asks c.config a escaping := by
    rcases hasks with htext | hhtml
    · exact ⟨_, Or.inl ⟨htext, rfl⟩⟩
    · exact ⟨_, Or.inr ⟨hhtml, rfl⟩⟩
  have hcontent := (Directives.content?_eq_some hds).2 ⟨hmem, hasks⟩
  obtain ⟨hself, attributes, t, hattributes, ht, hs, rfl⟩ := elementPieces_content hcontent hfs
  exact ⟨hself, inner, attributes, t, escaping, pieces, hopens, hattributes, hasks, ht, hs, hpieces,
    haround⟩

/-- What is known of an element whose content is replaced by the value of `a`, standing among the
nodes of a template. -/
structure Replaces (c : Compiler) (outer : Scope) (nodes : List Node) (e : Element)
    (children : List Node) (a : Attribute) : Prop where
  /-- The tag does not close itself. -/
  bodied : e.selfClosed = false
  /-- The element is compiled with the value right after its start tag. -/
  writes : ∃ scope, Stands c.config outer nodes scope (.element e children) ∧
    c.Writes scope e children a
  /-- What is there stands in the element, unless that is void. -/
  inside : Encloses c.config e.name ↔ isVoid e.name = false
  /-- If it is, the element is empty and what is there comes after it. -/
  beside : isVoid e.name = true → children = [] ∧ Precedes c.config e.name

end Compiler

/-- In a template that compiles, every element whose content is replaced has a tag that does not
close itself, and is compiled with the value between its start tag and its end tag.  The
value stands in the element exactly if that is not void; a void element has no children, and the
value comes after it. -/
theorem Template.compile_replaces {config : Config} {source : Source} {context : ObjectTy}
    {t : Template} (h : Template.compile config source context = .ok t) :
    ∃ document, Document.parse config source = .ok document ∧
      ∀ depth e children, (depth, .element e children) ∈ document.descendants →
        ∀ a ∈ e.attributes, a.control? config = some .text ∨ a.control? config = some .html →
          Compiler.Replaces ⟨config, source⟩ ⟨context, []⟩ document.children e children a := by
  obtain ⟨document, f, hread, hf, -⟩ := Template.compile_ok.1 h
  refine ⟨document, Except.mapError_eq_ok.2 hread, fun depth e children hmem a ha hasks => ?_⟩
  have hfit := Document.read_wellFormed hread
  have hchecks : document.Checks config context :=
    (Compiler.compile_succeeds (c := ⟨config, source⟩) hfit).1 ⟨f, hf⟩
  obtain ⟨hwell, scope, hstands⟩ :=
    Node.walkAll_stands document.children ⟨context, []⟩ hfit hchecks hmem
  have hpieces : (Compiler.nodePieces ⟨config, source⟩ scope (.element e children)).Succeeds :=
    (Compiler.nodePieces_succeeds _ scope hwell).2 fun inner n hn =>
      hchecks inner n (hstands.trans hn)
  have hwritten := Compiler.elementNode_writes (c := ⟨config, source⟩) ha hasks hpieces
  have hshaped : (Node.element e children).Shaped :=
    Node.ThroughoutAll.walk (Document.read_shaped hread) (depth, .element e children) hmem
  exact {
    bodied := hwritten.1
    writes := ⟨scope, hstands, hwritten.2⟩
    inside := encloses_iff
    beside := fun hvoid => ⟨hshaped.leaf (Or.inl hvoid), precedes_of_isVoid hvoid⟩ }

/-! ## A card with a name -/

namespace Card

/-- A context with a name, and with names that may be shown. -/
def page : ObjectTy :=
  let named := (ObjectTy.empty "Card").withField "name" .string
  (named.withField "names" (.list .string)).withField "shown" .bool

/-- Items with a loop and a condition; their content is replaced. -/
def items : Source :=
  .ofString "items" "<ul><li c:for='n:names' c:if='shown' c:text='n'>-</li></ul>"

/-- A void element with a value for its content. -/
def line : Source := .ofString "line" "<br c:text='name'>"

/-- The elements whose content is replaced by text, with their depths. -/
def replaced (document : Document) : List (Nat × String) :=
  document.descendants.filterMap fun below =>
    below.2.element?.bind fun e =>
      if e.attributes.any fun a => a.control? {} == some .text then some (below.1, e.name) else none

theorem mem_replaced {document : Document} {depth : Nat} {name : String}
    (h : (depth, name) ∈ replaced document) : ∃ e children a,
      (depth, .element e children) ∈ document.descendants ∧ e.name = name ∧ a ∈ e.attributes ∧
        a.control? {} = some .text := by
  obtain ⟨⟨depth', node⟩, hmem, hnode⟩ := List.mem_filterMap.1 h
  cases node with
  | element e children =>
      obtain ⟨hany, heq⟩ : (e.attributes.any fun a => a.control? {} == some .text) = true ∧
          (depth', e.name) = (depth, name) := by simpa [Node.element?] using hnode
      cases heq
      obtain ⟨a, ha, hasks⟩ := List.any_eq_true.1 hany
      exact ⟨e, children, a, hmem, rfl, ha, eq_of_beq hasks⟩
  | text content span => cases hnode
  | comment content span => cases hnode

theorem compiles {source : Source} (depth : Nat) (name : String)
    (hok : (Template.compile {} source page).toBool = true)
    (hreplaced : (Document.parse {} source).toOption.map replaced = some [(depth, name)]) :
    ∃ t document e children a, Template.compile {} source page = .ok t ∧
      Document.parse {} source = .ok document ∧
      (depth, .element e children) ∈ document.descendants ∧ e.name = name ∧ a ∈ e.attributes ∧
        a.control? {} = some .text := by
  obtain ⟨t, hcompile⟩ := Except.succeeds_iff_toBool.2 hok
  obtain ⟨document, hparse, hdocument⟩ := Option.map_eq_some_iff.1 hreplaced
  obtain ⟨e, children, a, hmem, hname, ha, hasks⟩ :=
    mem_replaced (hdocument ▸ List.mem_singleton_self (depth, name))
  exact ⟨t, document, e, children, a, hcompile, Except.toOption_eq_some.1 hparse, hmem, hname, ha,
    hasks⟩

/-- The content of an item is the value. -/
theorem compile_replaces_items : ∃ t document e children a,
    Template.compile {} items page = .ok t ∧ Document.parse {} items = .ok document ∧
      (1, .element e children) ∈ document.descendants ∧ e.name = "li" ∧ a ∈ e.attributes ∧
        a.control? {} = some .text ∧
        Compiler.Replaces ⟨{}, items⟩ ⟨page, []⟩ document.children e children a := by
  have hok : (Template.compile {} items page).toBool = true := by decide +kernel
  obtain ⟨t, document, e, children, a, hcompile, hparse, hmem, hname, ha, hasks⟩ :=
    compiles 1 "li" hok (by decide +kernel)
  obtain ⟨document', hparse', hreplaces⟩ := Template.compile_replaces hcompile
  cases hparse.symm.trans hparse'
  exact ⟨t, document, e, children, a, hcompile, hparse, hmem, hname, ha, hasks,
    hreplaces 1 e children hmem a ha (Or.inl hasks)⟩

/-- The depths of all nodes of a text, with the names of the elements among them. -/
def outline (source : Source) : Option (List (Nat × Option String)) :=
  (Document.parse {} source).toOption.map fun document =>
    document.descendants.map fun below => (below.1, below.2.element?.map (·.name))

/-- The name is written after the line break, and is beside it when the output is read. -/
theorem name_beside_line : ∃ t document e children a,
    Template.compile {} line page = .ok t ∧ Document.parse {} line = .ok document ∧
      (0, .element e children) ∈ document.descendants ∧ a ∈ e.attributes ∧
        a.control? {} = some .text ∧ isVoid e.name = true ∧
        t.render (.object [("name", .string "Ann")]) = .ok "<br>Ann" ∧
        outline (.ofString "line" "<br>Ann") = some [(0, some "br"), (0, none)] := by
  have hok : (Template.compile {} line page).toBool = true := by decide +kernel
  obtain ⟨t, document, e, children, a, hcompile, hparse, hmem, hname, ha, hasks⟩ :=
    compiles 0 "br" hok (by decide +kernel)
  have hout : (Template.compile {} line page).toOption.bind
      (fun t => (t.render (.object [("name", .string "Ann")])).toOption) = some "<br>Ann" := by
    decide +kernel
  rw [hcompile] at hout
  have houtline : outline (.ofString "line" "<br>Ann") = some [(0, some "br"), (0, none)] := by
    decide +kernel
  exact ⟨t, document, e, children, a, hcompile, hparse, hmem, ha, hasks, by rw [hname]; decide,
    Except.toOption_eq_some.1 hout, houtline⟩

end Card

end TypedTemplate
