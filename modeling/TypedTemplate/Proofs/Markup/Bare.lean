/-
# `TypedTemplate.Proofs.Markup.Bare` — trees and tokens without their places

`bare` takes the spans out of tokens, trees and builders, and the blank space after the
name out of end tags.  Two trees are the same apart from where they stand if they are
equal when bare.  The builder does not look at spans except to report faults, so it makes
of bare tokens the bare form of what it makes of the tokens (`Builder.addAll_bare`), and
tokens that are equal when bare form trees that are (`Document.build?_bare`).
-/
import TypedTemplate.Proofs.Markup.Adds
import TypedTemplate.Proofs.Markup.Closing

namespace TypedTemplate.Markup

/-! ## Taking the places out -/

/-- The place of what has none. -/
def noSpan : Span := ⟨0, 0⟩

/-- A value without its place. -/
def AttributeValue.bare (v : AttributeValue) : AttributeValue := { v with span := noSpan }

/-- A token without its place; an end tag is its name. -/
def Token.bare : Token → Token
  | .text content _ => .text content noSpan
  | .comment content _ => .comment content noSpan
  | .openTag name _ => .openTag name noSpan
  | .attributeName name _ => .attributeName name noSpan
  | .attributeValue value _ => .attributeValue value.bare noSpan
  | .tagEnd _ => .tagEnd noSpan
  | .tagSelfClose _ => .tagSelfClose noSpan
  | .rawText content _ => .rawText content noSpan
  | .closeTag inner _ => .closeTag (closingName inner) noSpan

/-- An attribute without its places. -/
def Attribute.bare (a : Attribute) : Attribute :=
  { a with span := noSpan, valueSpan? := a.valueSpan?.map fun _ => noSpan }

/-- An element without its places. -/
def Element.bare (e : Element) : Element :=
  { e with attributes := e.attributes.map Attribute.bare, span := noSpan }

mutual

/-- A node without its places. -/
def Node.bare : Node → Node
  | .text content _ => .text content noSpan
  | .comment content _ => .comment content noSpan
  | .element e children => .element e.bare (Node.bareAll children)
termination_by structural node => node

/-- Some nodes without their places. -/
def Node.bareAll : List Node → List Node
  | [] => []
  | node :: rest => node.bare :: Node.bareAll rest
termination_by structural nodes => nodes

end

/-- A tree without its places. -/
def Document.bare (d : Document) : Document := ⟨Node.bareAll d.children⟩

theorem Node.bareAll_eq_map (nodes : List Node) : Node.bareAll nodes = nodes.map Node.bare := by
  induction nodes with
  | nil => rfl
  | cons n nodes ih => rw [Node.bareAll, ih, List.map_cons]

/-- A start tag that is being read, without its places. -/
def TagSoFar.bare (tag : TagSoFar) : TagSoFar :=
  { tag with span := noSpan, attributes := tag.attributes.map Attribute.bare }

/-- An open element without its places. -/
def OpenElement.bare (o : OpenElement) : OpenElement :=
  ⟨o.element.bare, o.children.map Node.bare⟩

/-- A tree that is being built, without its places. -/
def Builder.bare (b : Builder) : Builder :=
  ⟨b.finished.map Node.bare, b.opened.map OpenElement.bare, b.tag.map TagSoFar.bare⟩

/-! ## The builder does not look at places -/

theorem Node.bare_element (e : Element) (children : List Node) :
    (Node.element e children).bare = .element e.bare (children.map Node.bare) := by
  rw [Node.bare, Node.bareAll_eq_map]

theorem TagSoFar.bare_element (tag : TagSoFar) (selfClosed : Bool) :
    tag.bare.element selfClosed = (tag.element selfClosed).bare := by
  simp [TagSoFar.element, TagSoFar.bare, Element.bare]

theorem TagSoFar.bare_addValue? (tag : TagSoFar) (v : AttributeValue) :
    tag.bare.addValue? v.bare = (tag.addValue? v).map TagSoFar.bare := by
  obtain ⟨name, span, attributes, awaiting⟩ := tag
  cases awaiting with
  | false => rfl
  | true => cases attributes <;> rfl

theorem TagSoFar.bare_missingValue? (tag : TagSoFar) :
    tag.bare.missingValue? = tag.missingValue?.map Attribute.bare := by
  rw [TagSoFar.missingValue?, TagSoFar.bare, ← List.map_reverse, List.find?_map]
  rfl

theorem OpenElement.bare_close (o : OpenElement) (hasEndTag : Bool) :
    o.bare.close hasEndTag = (o.close hasEndTag).bare := by
  rw [OpenElement.close, OpenElement.close, Node.bare_element, List.map_reverse]
  rfl

theorem OpenElement.bare_append (o : OpenElement) (inner : List Node) :
    ({ o.bare with children := inner.map Node.bare ++ o.bare.children } : OpenElement) =
      OpenElement.bare { o with children := inner ++ o.children } := by
  simp [OpenElement.bare]

theorem closeNamed_bare (name : String) : ∀ (opened : List OpenElement) (inner : List Node),
    closeNamed name (inner.map Node.bare) (opened.map OpenElement.bare) =
      (closeNamed name inner opened).map (Prod.map Node.bare (List.map OpenElement.bare))
  | [], _ => rfl
  | o :: opened, inner => by
      rw [List.map_cons, closeNamed, closeNamed, OpenElement.bare_append, OpenElement.bare_close,
        OpenElement.bare_close]
      show (if o.element.name = name then _ else _) = _
      split
      · rfl
      · exact closeNamed_bare name opened [_]

theorem closeAll_bare : ∀ (opened : List OpenElement) (inner : List Node),
    closeAll (inner.map Node.bare) (opened.map OpenElement.bare) =
      (closeAll inner opened).map Node.bare
  | [], _ => rfl
  | o :: opened, inner => by
      rw [List.map_cons, closeAll, closeAll, OpenElement.bare_append, OpenElement.bare_close]
      exact closeAll_bare opened [_]

theorem markVoidEnd_bare (name : String) (nodes : List Node) :
    markVoidEnd name (nodes.map Node.bare) = (markVoidEnd name nodes).map Node.bare := by
  cases nodes with
  | nil => rfl
  | cons n nodes =>
      cases n with
      | text content span => rfl
      | comment content span => rfl
      | element e children =>
          rw [List.map_cons, Node.bare_element, markVoidEnd, markVoidEnd]
          show (if e.name = name && !e.selfClosed then _ else _) = _
          split
          · rw [List.map_cons, Node.bare_element]
            rfl
          · rw [List.map_cons, Node.bare_element]

namespace Builder

theorem bare_modifyChildren (b : Builder) {change change' : List Node → List Node}
    (h : ∀ ns, change' (ns.map Node.bare) = (change ns).map Node.bare) :
    b.bare.modifyChildren change' = (b.modifyChildren change).bare := by
  obtain ⟨finished, opened, tag⟩ := b
  cases opened with
  | nil => simp only [modifyChildren, bare, List.map_nil, h]
  | cons o outer =>
      simp only [modifyChildren, bare, List.map_cons, OpenElement.bare, h]

theorem bare_append (b : Builder) (node : Node) : b.bare.append node.bare = (b.append node).bare :=
  bare_modifyChildren b fun _ => rfl

theorem bare_enter (b : Builder) (e : Element) : b.bare.enter e.bare = (b.enter e).bare := by
  unfold enter
  show (if e.selfClosed || isVoid e.name then _ else _) = _
  split
  · rw [← bare_append, Node.bare_element]
    rfl
  · rfl

theorem bare_close (b : Builder) (name : String) (span span' : Span) :
    ((b.close name span).toOption.map bare) = (b.bare.close name span').toOption := by
  unfold close
  split
  · rw [bare_modifyChildren b (markVoidEnd_bare name)]
    rfl
  · have hnamed := closeNamed_bare name b.opened []
    rw [List.map_nil] at hnamed
    rw [show b.bare.opened = b.opened.map OpenElement.bare from rfl, hnamed]
    cases closeNamed name [] b.opened with
    | none => rfl
    | some found =>
        show some (bare _) = some _
        rw [← bare_append]
        rfl

theorem bare_endTag (b : Builder) (tag : TagSoFar) (selfClosed : Bool) :
    ((b.endTag tag selfClosed).toOption.map bare) =
      (b.bare.endTag tag.bare selfClosed).toOption := by
  unfold endTag
  rw [TagSoFar.bare_missingValue?]
  cases tag.missingValue? with
  | some a => rfl
  | none =>
      show some (bare _) = some _
      rw [← bare_enter, TagSoFar.bare_element]
      rfl

theorem checkTagName_toOption (name : String) (span span' : Span) :
    (checkTagName name span).toOption = (checkTagName name span').toOption := by
  unfold checkTagName
  split
  · rfl
  · split <;> rfl

/-- The builder takes a token that has its place taken out as it takes the token. -/
theorem add_bare (config : Config) (b : Builder) (token : Token) :
    (b.add config token).toOption.map bare = (b.bare.add config token.bare).toOption := by
  cases token with
  | text content span =>
      show some (bare _) = some _
      rw [← bare_append]
      rfl
  | comment content span =>
      show some (bare _) = some _
      rw [← bare_append]
      rfl
  | rawText content span =>
      show (Except.toOption (if _ then _ else _)).map bare = Except.toOption (if _ then _ else _)
      split
      · rfl
      · show some (bare _) = some _
        rw [← bare_append]
        rfl
  | openTag name span =>
      show (Except.toOption (_ >>= _)).map bare = Except.toOption (_ >>= _)
      rw [Except.toOption_bind, Except.toOption_bind, checkTagName_toOption name span noSpan]
      cases (checkTagName name noSpan).toOption <;> rfl
  | closeTag inner span =>
      show (Except.toOption (_ >>= _)).map bare = Except.toOption (_ >>= _)
      rw [Except.toOption_bind, Except.toOption_bind, closingName_closingName,
        checkTagName_toOption _ span noSpan]
      cases (checkTagName (closingName inner) noSpan).toOption with
      | none => rfl
      | some _ => exact bare_close b (closingName inner) span noSpan
  | attributeName name span =>
      obtain ⟨finished, opened, tag⟩ := b
      cases tag <;> rfl
  | attributeValue value span =>
      obtain ⟨finished, opened, tag⟩ := b
      cases tag with
      | none => rfl
      | some tag =>
          simp only [Token.bare, add, bare, Option.map_some, TagSoFar.bare_addValue?]
          cases tag.addValue? value <;> rfl
  | tagEnd span =>
      obtain ⟨finished, opened, tag⟩ := b
      cases tag with
      | none => rfl
      | some tag => exact bare_endTag _ tag false
  | tagSelfClose span =>
      obtain ⟨finished, opened, tag⟩ := b
      cases tag with
      | none => rfl
      | some tag => exact bare_endTag _ tag true

theorem addAll_bare (config : Config) : ∀ (tokens : List Token) (b : Builder),
    (b.addAll config tokens).toOption.map bare =
      (b.bare.addAll config (tokens.map Token.bare)).toOption
  | [], _ => rfl
  | token :: tokens, b => by
      rw [List.map_cons, addAll_cons, addAll_cons, Except.toOption_bind, Except.toOption_bind,
        ← add_bare]
      cases (b.add config token).toOption with
      | none => rfl
      | some next => exact addAll_bare config tokens next

theorem finish_bare (config : Config) (b : Builder) :
    (b.finish config).toOption.map Document.bare = (b.bare.finish config).toOption := by
  unfold finish
  rw [show b.bare.opened = b.opened.map OpenElement.bare from rfl, List.getLast?_map]
  have hdocument : Document.bare ⟨(closeAll [] b.opened ++ b.finished).reverse⟩ =
      ⟨(closeAll [] (b.opened.map OpenElement.bare) ++ b.bare.finished).reverse⟩ := by
    have hclose := closeAll_bare b.opened []
    rw [List.map_nil] at hclose
    rw [Document.bare, Node.bareAll_eq_map, List.map_reverse, List.map_append, hclose]
    rfl
  cases config.strictEndTags with
  | false =>
      show some (Document.bare _) = some _
      rw [hdocument]
  | true =>
      cases b.opened.getLast? with
      | some o => rfl
      | none =>
          show some (Document.bare _) = some _
          rw [hdocument]

end Builder

/-! ## Trees of a known shape -/

theorem Document.bare_eq_element {d : Document} {e : Element} {children : List Node}
    (h : d.bare = ⟨[.element e children]⟩) : ∃ e' children', d = ⟨[.element e' children']⟩ ∧
      e'.bare = e ∧ children'.map Node.bare = children := by
  obtain ⟨nodes⟩ := d
  rw [Document.bare, Node.bareAll_eq_map, Document.mk.injEq, List.map_eq_singleton_iff] at h
  obtain ⟨node, rfl, hnode⟩ := h
  cases node with
  | text content span => cases hnode
  | comment content span => cases hnode
  | element e' children' =>
      rw [Node.bare_element] at hnode
      cases hnode
      exact ⟨e', children', rfl, rfl, rfl⟩

theorem Element.bare_eq {e : Element} {name : String} {as : List Attribute}
    {selfClosed hasEndTag : Bool} (h : e.bare = ⟨name, as, selfClosed, hasEndTag, noSpan⟩) :
    ∃ as' span, e = ⟨name, as', selfClosed, hasEndTag, span⟩ ∧ as'.map Attribute.bare = as := by
  obtain ⟨name', as', selfClosed', hasEndTag', span⟩ := e
  cases h
  exact ⟨as', span, rfl, rfl⟩

/-! ## What tokens form -/

/-- The tree that some tokens form, if they form one. -/
def Document.build? (config : Config) (tokens : List Token) : Option Document :=
  (Builder.addAll config {} tokens).toOption.bind fun b => (b.finish config).toOption

/-- Tokens that are the same apart from their places form trees that are. -/
theorem Document.build?_bare (config : Config) {tokens tokens' : List Token}
    (h : tokens.map Token.bare = tokens'.map Token.bare) :
    (Document.build? config tokens).map Document.bare =
      (Document.build? config tokens').map Document.bare := by
  have hbuild : ∀ tokens : List Token, (Document.build? config tokens).map Document.bare =
      (Builder.addAll config {} (tokens.map Token.bare)).toOption.bind
        fun b => (b.finish config).toOption := by
    intro tokens
    have hadd := Builder.addAll_bare config tokens {}
    rw [show Builder.bare {} = {} from rfl] at hadd
    rw [← hadd, Document.build?]
    cases (Builder.addAll config {} tokens).toOption with
    | none => rfl
    | some b => exact Builder.finish_bare config b
  rw [hbuild, hbuild, h]

end TypedTemplate.Markup
