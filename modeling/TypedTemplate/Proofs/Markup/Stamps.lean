/-
# `TypedTemplate.Proofs.Markup.Stamps` — marks with their places

A tree knows where each text, comment, start tag, attribute name and value stood, and of an
end tag only that it was there.  A `Stamp` is a mark with its place where the tree keeps
it.  A tree that is being built has the stamps of the tokens it was given (`stamps_add`),
with two exceptions: the empty body of a raw text element, and the end tag of a void
element unless the node just before it is that element's start tag and has no end tag yet.
-/
import TypedTemplate.Proofs.Markup.Adds
import TypedTemplate.Markup.Write

namespace TypedTemplate.Markup

/-! ## Stamps -/

/-- A mark, and its place if the tree keeps it. -/
structure Stamp where
  mark : Mark
  span : Option Span
deriving DecidableEq

/-- The stamp of a token. -/
def Token.stamp : Token → Stamp
  | .text content span => ⟨.text content, some span⟩
  | .comment content span => ⟨.comment content, some span⟩
  | .openTag name span => ⟨.openTag name, some span⟩
  | .attributeName name span => ⟨.attributeName name, some span⟩
  | .attributeValue value _ => ⟨.attributeValue value.quote value.text, some value.span⟩
  | .tagEnd _ => ⟨.tagEnd, none⟩
  | .tagSelfClose _ => ⟨.tagSelfClose, none⟩
  | .rawText content span => ⟨.text content, some span⟩
  | .closeTag inner _ => ⟨.closeTag (closingName inner), none⟩

/-- The token is the body of a raw text element that has none. -/
def Token.isEmptyBody : Token → Bool
  | .rawText content _ => content.isEmpty
  | _ => false

theorem Token.marks_eq_stamp (token : Token) :
    token.marks = if token.isEmptyBody then [] else [token.stamp.mark] := by
  cases token <;> rfl

/-- The stamps of an attribute. -/
def Attribute.stamps (a : Attribute) : List Stamp :=
  ⟨.attributeName a.name, some a.span⟩ ::
    match a.quote with
    | .bare => []
    | .valued quote => [⟨.attributeValue quote (a.text?.getD ""), a.valueSpan?⟩]

/-- The stamp that ends a start tag. -/
def Stamp.ending (selfClosed : Bool) : Stamp :=
  ⟨if selfClosed then .tagSelfClose else .tagEnd, none⟩

/-- The stamps of a start tag. -/
def Element.openStamps (e : Element) : List Stamp :=
  ⟨.openTag e.name, some e.span⟩ ::
    (e.attributes.flatMap Attribute.stamps ++ [.ending e.selfClosed])

/-- The stamp of an end tag, if there is one. -/
def Element.closeStamps (e : Element) : List Stamp :=
  if e.hasEndTag then [⟨.closeTag e.name, none⟩] else []

mutual

/-- The stamps of a node and of all below it, in document order. -/
def Node.stamps : Node → List Stamp
  | .text content span => [⟨.text content, some span⟩]
  | .comment content span => [⟨.comment content, some span⟩]
  | .element e children => e.openStamps ++ Node.stampsAll children ++ e.closeStamps
termination_by structural node => node

/-- The stamps of some nodes, in document order. -/
def Node.stampsAll : List Node → List Stamp
  | [] => []
  | node :: rest => node.stamps ++ Node.stampsAll rest
termination_by structural nodes => nodes

end

/-- The stamps of a tree, in document order. -/
def Document.stamps (document : Document) : List Stamp := Node.stampsAll document.children

theorem Node.stampsAll_eq (nodes : List Node) :
    Node.stampsAll nodes = nodes.flatMap Node.stamps := by
  induction nodes with
  | nil => rfl
  | cons n nodes ih => rw [Node.stampsAll, ih, List.flatMap_cons]

theorem Node.stamps_element (e : Element) (children : List Node) :
    (Node.element e children).stamps =
      e.openStamps ++ children.flatMap Node.stamps ++ e.closeStamps := by
  rw [Node.stamps, Node.stampsAll_eq]

/-! ## Marks are stamps without their places -/

theorem Attribute.marks_eq_stamps (a : Attribute) : a.marks = a.stamps.map Stamp.mark := by
  rw [Attribute.marks, Attribute.stamps]
  cases a.quote <;> rfl

theorem Element.openMarks_eq_stamps (e : Element) : e.openMarks = e.openStamps.map Stamp.mark := by
  have hattributes : e.attributes.flatMap Attribute.marks =
      (e.attributes.flatMap Attribute.stamps).map Stamp.mark := by
    rw [List.map_flatMap, ← funext Attribute.marks_eq_stamps]
  rw [Element.openMarks, Element.openStamps, hattributes]
  simp [Stamp.ending]

theorem Element.closeMarks_eq_stamps (e : Element) :
    e.closeMarks = e.closeStamps.map Stamp.mark := by
  rw [Element.closeMarks, Element.closeStamps]
  cases e.hasEndTag <;> rfl

mutual

theorem Node.marks_eq_stamps : ∀ node : Node, node.marks = node.stamps.map Stamp.mark
  | .text _ _ => rfl
  | .comment _ _ => rfl
  | .element e children => by
      rw [Node.marks, Node.stamps, List.map_append, List.map_append, e.openMarks_eq_stamps,
        e.closeMarks_eq_stamps, Node.marksAll_eq_stamps children]

theorem Node.marksAll_eq_stamps : ∀ nodes : List Node,
    Node.marksAll nodes = (Node.stampsAll nodes).map Stamp.mark
  | [] => rfl
  | node :: rest => by
      rw [Node.marksAll, Node.stampsAll, List.map_append, Node.marks_eq_stamps node,
        Node.marksAll_eq_stamps rest]

end

/-! ## End tags of void elements -/

/-- The nodes before the place of the builder, last first. -/
def Builder.siblings (b : Builder) : List Node :=
  match b.opened with
  | [] => b.finished
  | o :: _ => o.children

/-- An end tag `name` belongs to this node, and it has none yet. -/
def Node.awaits (name : String) : Node → Bool
  | .element e _ => e.name = name && !e.selfClosed && !e.hasEndTag
  | _ => false

/-- The token is the end tag of a void element and the tree is the same without it. -/
def Builder.ignores (b : Builder) : Token → Bool
  | .closeTag inner _ =>
    isVoid (closingName inner) && !b.siblings.head?.any (Node.awaits (closingName inner))
  | _ => false

theorem markVoidEnd_self {name : String} {nodes : List Node}
    (h : nodes.head?.any (Node.awaits name) = false) : markVoidEnd name nodes = nodes := by
  cases nodes with
  | nil => rfl
  | cons n nodes =>
      cases n with
      | text content span => rfl
      | comment content span => rfl
      | element e children =>
          rw [markVoidEnd]
          split
          · rename_i hpairs
            have hend : e.hasEndTag = true := by simpa [Node.awaits, hpairs] using h
            rw [← hend]
          · rfl

/-- A node that waits for an end tag gets it. -/
theorem markVoidEnd_awaits {name : String} {nodes : List Node}
    (h : nodes.head?.any (Node.awaits name) = true) : ∃ e children rest,
      nodes = .element e children :: rest ∧
        markVoidEnd name nodes = .element { e with hasEndTag := true } children :: rest ∧
          e.name = name ∧ e.selfClosed = false ∧ e.hasEndTag = false := by
  cases nodes with
  | nil => cases h
  | cons n nodes =>
      cases n with
      | text content span => cases h
      | comment content span => cases h
      | element e children =>
          simp only [List.head?_cons, Option.any_some, Node.awaits, Bool.and_eq_true,
            decide_eq_true_eq, Bool.not_eq_true'] at h
          obtain ⟨⟨hname, hself⟩, hend⟩ := h
          refine ⟨e, children, nodes, rfl, ?_, hname, hself, hend⟩
          rw [markVoidEnd, if_pos (by simp [hname, hself])]

/-! ## Stamps of a tree that is being built -/

/-- The stamps of a start tag read up to some point. -/
def TagSoFar.stamps (tag : TagSoFar) : List Stamp :=
  ⟨.openTag tag.name, some tag.span⟩ :: tag.attributes.reverse.flatMap Attribute.stamps

/-- The stamps of an open element. -/
def OpenElement.stamps (o : OpenElement) : List Stamp :=
  o.element.openStamps ++ o.children.reverse.flatMap Node.stamps

/-- The stamps of a tree that is being built, in document order. -/
def Builder.stamps (b : Builder) : List Stamp :=
  b.finished.reverse.flatMap Node.stamps ++ b.opened.reverse.flatMap OpenElement.stamps ++
    b.tag.elim [] TagSoFar.stamps

/-- An attribute that waits for a value is a bare name. -/
def TagSoFar.Fresh (tag : TagSoFar) : Prop :=
  tag.awaiting = true → ∀ a ∈ tag.attributes.head?, a.quote = .bare

theorem OpenElement.stamps_close (o : OpenElement) (hasEndTag : Bool) :
    (o.close hasEndTag).stamps =
      o.stamps ++ if hasEndTag then [⟨.closeTag o.element.name, none⟩] else [] := by
  rw [OpenElement.close, Node.stamps_element]
  rfl

theorem OpenElement.stamps_append (o : OpenElement) (inner : List Node) :
    OpenElement.stamps { o with children := inner ++ o.children } =
      o.stamps ++ inner.reverse.flatMap Node.stamps := by
  simp [OpenElement.stamps]

/-- Closing elements adds the stamp of the end tag. -/
theorem stamps_closeNamed {name : String} : ∀ {opened : List OpenElement} {inner : List Node}
    {node : Node} {outer : List OpenElement}, closeNamed name inner opened = some (node, outer) →
    outer.reverse.flatMap OpenElement.stamps ++ node.stamps =
      opened.reverse.flatMap OpenElement.stamps ++ inner.reverse.flatMap Node.stamps ++
        [⟨.closeTag name, none⟩]
  | [], _, _, _, h => by cases h
  | o :: opened, inner, node, outer, h => by
      rw [closeNamed] at h
      split at h
      · rename_i hname
        cases h
        rw [OpenElement.stamps_close, OpenElement.stamps_append, if_pos rfl, hname]
        simp
      · rw [stamps_closeNamed h, List.reverse_singleton, List.flatMap_singleton,
          OpenElement.stamps_close, OpenElement.stamps_append]
        simp

/-- The end of the text adds no stamp. -/
theorem stamps_closeAll : ∀ (opened : List OpenElement) (inner : List Node),
    (closeAll inner opened).reverse.flatMap Node.stamps =
      opened.reverse.flatMap OpenElement.stamps ++ inner.reverse.flatMap Node.stamps
  | [], _ => rfl
  | o :: opened, inner => by
      rw [closeAll, stamps_closeAll, List.reverse_singleton, List.flatMap_singleton,
        OpenElement.stamps_close, OpenElement.stamps_append]
      simp

theorem stamps_markVoidEnd {name : String} {nodes : List Node}
    (h : nodes.head?.any (Node.awaits name) = true) :
    (markVoidEnd name nodes).reverse.flatMap Node.stamps =
      nodes.reverse.flatMap Node.stamps ++ [⟨.closeTag name, none⟩] := by
  obtain ⟨e, children, rest, rfl, hmark, rfl, -, hend⟩ := markVoidEnd_awaits h
  have hclose : e.closeStamps = [] := by rw [Element.closeStamps, hend]; rfl
  rw [hmark, List.reverse_cons, List.reverse_cons, List.flatMap_append, List.flatMap_append,
    List.flatMap_singleton, List.flatMap_singleton, Node.stamps_element, Node.stamps_element,
    hclose]
  simp [Element.closeStamps, Element.openStamps]

namespace Builder

variable {config : Config} {b b' : Builder}

theorem modifyChildren_self {change : List Node → List Node}
    (h : change b.siblings = b.siblings) : b.modifyChildren change = b := by
  obtain ⟨finished, opened, tag⟩ := b
  cases opened with
  | nil => exact congrArg (Builder.mk · [] tag) h
  | cons o outer =>
      exact congrArg (fun children => Builder.mk finished (⟨o.element, children⟩ :: outer) tag) h

@[simp] theorem modifyChildren_tag (b : Builder) (change : List Node → List Node) :
    (b.modifyChildren change).tag = b.tag := by
  obtain ⟨finished, opened, tag⟩ := b
  cases opened <;> rfl

@[simp] theorem append_tag (b : Builder) (node : Node) : (b.append node).tag = b.tag :=
  modifyChildren_tag b _

@[simp] theorem enter_tag (b : Builder) (e : Element) : (b.enter e).tag = b.tag := by
  rw [enter]
  split
  · exact append_tag b _
  · rfl

theorem siblings_modifyChildren (b : Builder) (change : List Node → List Node) :
    (b.modifyChildren change).siblings = change b.siblings := by
  obtain ⟨finished, opened, tag⟩ := b
  cases opened <;> rfl

theorem siblings_append (b : Builder) (node : Node) :
    (b.append node).siblings = node :: b.siblings := siblings_modifyChildren b _

theorem stamps_modifyChildren {change : List Node → List Node} {added : List Stamp}
    (htag : b.tag = none) (h : (change b.siblings).reverse.flatMap Node.stamps =
      b.siblings.reverse.flatMap Node.stamps ++ added) :
    (b.modifyChildren change).stamps = b.stamps ++ added := by
  obtain ⟨finished, opened, tag⟩ := b
  cases htag
  cases opened with
  | nil =>
      have h' : (change finished).reverse.flatMap Node.stamps = _ := h
      simp [modifyChildren, stamps, h', siblings]
  | cons o outer =>
      have h' : (change o.children).reverse.flatMap Node.stamps = _ := h
      simp [modifyChildren, stamps, OpenElement.stamps, h', siblings]

theorem stamps_append (htag : b.tag = none) (node : Node) :
    (b.append node).stamps = b.stamps ++ node.stamps :=
  stamps_modifyChildren htag (by simp)

theorem stamps_enter {tag : TagSoFar} (htag : b.tag = some tag) (selfClosed : Bool) :
    ({ b with tag := none }.enter (tag.element selfClosed)).stamps =
      b.stamps ++ [.ending selfClosed] := by
  have hopen : (tag.element selfClosed).openStamps = tag.stamps ++ [.ending selfClosed] := rfl
  have hstamps : b.stamps = Builder.stamps { b with tag := none } ++ tag.stamps := by
    simp [stamps, htag]
  rw [enter]
  split
  · rw [stamps_append rfl, Node.stamps_element, hopen, hstamps]
    simp [Element.closeStamps, TagSoFar.element]
  · rw [hstamps]
    simp [stamps, OpenElement.stamps, hopen]

theorem stamps_addValue {tag tag' : TagSoFar} {value : AttributeValue} (hfresh : tag.Fresh)
    (h : tag.addValue? value = some tag') : tag'.stamps =
      tag.stamps ++ [⟨.attributeValue value.quote value.text, some value.span⟩] := by
  obtain ⟨hawaiting, last, earlier, hattributes, rfl⟩ := addValue?_eq_some.1 h
  have hbare : last.quote = .bare := hfresh hawaiting last (by rw [hattributes]; rfl)
  simp [TagSoFar.stamps, hattributes, Attribute.stamps, Attribute.setValue, hbare]

/-- Where no part of a start tag can be, none is being read. -/
theorem tag_eq_none {token : Token} (htag : b.tag.isSome = token.isTagPart)
    (hpart : token.isTagPart = false) : b.tag = none := by
  rwa [hpart, Option.isSome_eq_false_iff, Option.isNone_iff_eq_none] at htag

/-- A token adds its stamp to those of the tree, unless it does not count. -/
theorem stamps_add {token : Token} (hadd : Adds config b token b')
    (htag : b.tag.isSome = token.isTagPart) (hfresh : ∀ t ∈ b.tag, t.Fresh) :
    b'.stamps = b.stamps ++ if b.ignores token || token.isEmptyBody then [] else [token.stamp] := by
  have hnone := tag_eq_none htag
  cases hadd with
  | text content span => exact stamps_append (hnone rfl) _
  | comment content span => exact stamps_append (hnone rfl) _
  | rawEmpty span hempty =>
      subst hempty
      exact (List.append_nil _).symm
  | @raw content span hne =>
      have hempty : Token.isEmptyBody (.rawText content span) = false :=
        Bool.eq_false_iff.2 fun h => hne (String.isEmpty_iff.1 h)
      rw [hempty]
      exact stamps_append (hnone rfl) _
  | openTag hcheck =>
      simp only [stamps, hnone rfl, Option.elim_none, Option.elim_some, List.append_nil]
      rfl
  | @attributeName name span tag hsome =>
      have hname : (tag.addName (config.directive? name).isSome name span).stamps =
          tag.stamps ++ [⟨.attributeName name, some span⟩] := by
        simp [TagSoFar.stamps, TagSoFar.addName, Attribute.stamps, Attribute.ofName]
      simp only [stamps, hsome, Option.elim_some, hname, List.append_assoc]
      rfl
  | attributeValue hsome hvalue =>
      simp only [stamps, hsome, Option.elim_some, stamps_addValue (hfresh _ hsome) hvalue,
        List.append_assoc]
      rfl
  | tagEnd hsome hmissing => exact stamps_enter hsome false
  | tagSelfClose hsome hmissing => exact stamps_enter hsome true
  | @closeVoid inner span hcheck hvoid =>
      have htag' := hnone rfl
      simp only [ignores, hvoid, Bool.true_and, Token.isEmptyBody, Bool.or_false]
      cases hawaits : b.siblings.head?.any (Node.awaits (closingName inner)) with
      | true => exact stamps_modifyChildren htag' (stamps_markVoidEnd hawaits)
      | false =>
          rw [modifyChildren_self (markVoidEnd_self hawaits)]
          exact (List.append_nil _).symm
  | @closeNamed inner span node outer hcheck hvoid hclose =>
      have htag' := hnone rfl
      have hstamps := stamps_closeNamed hclose
      simp only [ignores, hvoid, Bool.false_and, Token.isEmptyBody, Bool.or_false]
      rw [stamps_append (b := { b with opened := outer }) htag']
      simp only [stamps, htag', Option.elim_none, List.append_nil, List.append_assoc, hstamps]
      simp [Token.stamp]
  | stray hstray hpart =>
      rw [hstray, hpart] at htag
      cases htag

theorem add_fresh {token : Token} (hadd : Adds config b token b') (hfresh : ∀ t ∈ b.tag, t.Fresh) :
    ∀ t ∈ b'.tag, t.Fresh := by
  cases hadd with
  | text content span => rwa [append_tag]
  | comment content span => rwa [append_tag]
  | rawEmpty => exact hfresh
  | raw => rwa [append_tag]
  | openTag =>
      rintro t ⟨⟩
      intro h
      cases h
  | attributeName hsome =>
      rintro t ⟨⟩ - a ⟨⟩
      rfl
  | attributeValue hsome hvalue =>
      obtain ⟨-, last, earlier, -, rfl⟩ := addValue?_eq_some.1 hvalue
      rintro t ⟨⟩ hawaiting
      cases hawaiting
  | tagEnd =>
      intro t ht
      rw [enter_tag] at ht
      cases ht
  | tagSelfClose =>
      intro t ht
      rw [enter_tag] at ht
      cases ht
  | closeVoid => rwa [modifyChildren_tag]
  | closeNamed => rwa [append_tag]
  | stray => exact hfresh

/-- A token that does not count leaves the tree as it is. -/
theorem add_ignores {token : Token} (hadd : Adds config b token b') (h : b.ignores token = true) :
    b' = b := by
  cases hadd with
  | @closeVoid inner span hcheck hvoid =>
      simp only [ignores, hvoid, Bool.true_and, Bool.not_eq_true'] at h
      exact modifyChildren_self (markVoidEnd_self h)
  | @closeNamed inner span node outer hcheck hvoid hclose =>
      simp [ignores, hvoid] at h
  | stray hstray hpart => rfl
  | rawEmpty => rfl
  | _ => cases h

theorem add_isEmptyBody {token : Token} (hadd : Adds config b token b')
    (h : token.isEmptyBody = true) : b' = b := by
  cases hadd with
  | rawEmpty => rfl
  | raw span hne => exact (hne (String.isEmpty_iff.1 h)).elim
  | stray => rfl
  | _ => cases h

end Builder

/-- A document gives back the stamps of its tokens. -/
theorem Document.stamps_finish {config : Config} {b : Builder} {document : Document}
    (htag : b.tag = none) (h : b.finish config = .ok document) : document.stamps = b.stamps := by
  rw [Builder.finish_ok h, Document.stamps, Node.stampsAll_eq, List.reverse_append,
    List.flatMap_append, stamps_closeAll, Builder.stamps, htag]
  simp

end TypedTemplate.Markup
