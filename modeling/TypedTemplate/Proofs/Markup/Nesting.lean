/-
# `TypedTemplate.Proofs.Markup.Nesting` — which start tag an end tag belongs to

Which elements are open at some place can be seen from the tokens before it.  A start tag
opens its element unless it closes itself; an end tag closes the innermost open element of
its name and with it all that were opened since.  A void element is open only as long as
nothing follows its start tag.  `openElements` says this of a list of tokens and knows
nothing of the tree.

An end tag for which no element is open is at fault, unless it is a void element's; then it
is idle, and so is the empty body of a raw text element.  `counted` leaves the idle tokens
out.  The tree has the stamps of the tokens that are left, and each of their end tags marks
the element that is innermost among the open ones of its name, and none that was opened
since (`Builder.Follows`, which every token preserves).

The lists of tokens are read from their ends here, so they are last first; `counted` and
`openElements` turn them round.
-/
import TypedTemplate.Proofs.Markup.Kept

namespace TypedTemplate.Markup

/-! ## Open elements -/

/-- The place where an element begins, with its name. -/
structure Start where
  name : String
  span : Span
deriving DecidableEq

/-- The start tag that is being read after some tokens. -/
def tagBefore? : List Token → Option Start
  | .openTag name span :: _ => some ⟨name, span⟩
  | .attributeName _ _ :: before => tagBefore? before
  | .attributeValue _ _ :: before => tagBefore? before
  | _ => none

/-- The start tag that ends right before, and does not close itself. -/
def justOpened? : List Token → Option Start
  | .tagEnd _ :: before => tagBefore? before
  | _ => none

/-- The void element whose start tag ends right before; it may get an end tag. -/
def waiting? (before : List Token) : Option Start :=
  (justOpened? before).filter fun start => isVoid start.name

/-- The elements around a place, innermost first. -/
def enclosing : List Token → List Start
  | [] => []
  | .tagEnd _ :: before =>
    ((tagBefore? before).filter fun start => !isVoid start.name).toList ++ enclosing before
  | .closeTag inner _ :: before =>
    if isVoid (closingName inner) then enclosing before
    else ((enclosing before).dropWhile fun start => start.name != closingName inner).tail
  | _ :: before => enclosing before

/-- The elements that are open, innermost first: those around the place and, right after its start
tag, a void element. -/
def openBack (before : List Token) : List Start := (waiting? before).toList ++ enclosing before

/-- The token leaves no trace: it is the empty body of a raw text element, or the end tag of a void
element that does not come right after the element's start tag. -/
def idle (before : List Token) : Token → Bool
  | .rawText content _ => content.isEmpty
  | .closeTag inner _ =>
    isVoid (closingName inner) &&
      !(waiting? before).any fun start => start.name = closingName inner
  | _ => false

/-- The tokens that leave a trace. -/
def countedBack : List Token → List Token
  | [] => []
  | token :: before =>
    if idle (countedBack before) token then countedBack before else token :: countedBack before

/-- The tokens of a text that leave a trace, first to last. -/
def counted (tokens : List Token) : List Token := (countedBack tokens.reverse).reverse

theorem waiting_ne {before : List Token} {name : String} (hvoid : isVoid name = false) :
    ∀ s ∈ (waiting? before).toList, s.name ≠ name := by
  intro s hs heq
  have hs := (Option.mem_filter_iff.1 (Option.mem_toList.1 hs)).2
  rw [heq, hvoid] at hs
  cases hs

theorem countedBack_sublist : ∀ before : List Token, (countedBack before).Sublist before
  | [] => .slnil
  | token :: before => by
      rw [countedBack]
      split
      · exact (countedBack_sublist before).cons token
      · exact (countedBack_sublist before).cons_cons token

theorem counted_sublist (tokens : List Token) : (counted tokens).Sublist tokens := by
  have hback := (countedBack_sublist tokens.reverse).reverse
  rwa [List.reverse_reverse] at hback

/-- The elements that are open after some tokens, first to last; innermost first. -/
def openElements (tokens : List Token) : List Start := openBack tokens.reverse

/-! ## Elements of a tree -/

/-- Where an element begins. -/
def Element.start (e : Element) : Start := ⟨e.name, e.span⟩

/-- Where a start tag begins. -/
def TagSoFar.start (tag : TagSoFar) : Start := ⟨tag.name, tag.span⟩

mutual

/-- The element of a node, and all below it, in document order. -/
def Node.elements : Node → List Element
  | .element e children => e :: Node.elementsAll children
  | .text _ _ => []
  | .comment _ _ => []
termination_by structural node => node

/-- The elements of some nodes, and all below them. -/
def Node.elementsAll : List Node → List Element
  | [] => []
  | node :: rest => node.elements ++ Node.elementsAll rest
termination_by structural nodes => nodes

end

mutual

theorem Node.elements_walk : ∀ (node : Node) (depth : Nat),
    (node.walk depth).filterMap (fun below => below.2.element?) = node.elements
  | .text _ _, _ => rfl
  | .comment _ _, _ => rfl
  | .element e children, depth => by
      rw [Node.walk, Node.elements, List.filterMap_cons, Node.elementsAll_walk children (depth + 1)]
      rfl

theorem Node.elementsAll_walk : ∀ (nodes : List Node) (depth : Nat),
    (Node.walkAll depth nodes).filterMap (fun below => below.2.element?) = Node.elementsAll nodes
  | [], _ => rfl
  | node :: rest, depth => by
      rw [Node.walkAll, Node.elementsAll, List.filterMap_append, Node.elements_walk node depth,
        Node.elementsAll_walk rest depth]

end

/-- The elements of a document, in document order. -/
def Document.elements (document : Document) : List Element :=
  document.descendants.filterMap fun below => below.2.element?

theorem Document.elements_eq (document : Document) :
    document.elements = Node.elementsAll document.children :=
  Node.elementsAll_walk document.children 0

theorem Node.elementsAll_eq (nodes : List Node) :
    Node.elementsAll nodes = nodes.flatMap Node.elements := by
  induction nodes with
  | nil => rfl
  | cons n nodes ih => rw [Node.elementsAll, ih, List.flatMap_cons]

theorem mem_elements_element {e e' : Element} {children : List Node} :
    e' ∈ (Node.element e children).elements ↔ e' = e ∨ ∃ n ∈ children, e' ∈ n.elements := by
  rw [Node.elements, Node.elementsAll_eq, List.mem_cons, List.mem_flatMap]

/-- Where a void element begins that waits for its end tag. -/
def Node.waits? : Node → Option Start
  | .element e _ => if isVoid e.name && !e.selfClosed && !e.hasEndTag then some e.start else none
  | _ => none

theorem waits?_eq_some {node : Node} {start : Start} (h : node.waits? = some start) :
    ∃ e children, node = .element e children ∧ e.start = start ∧ e.hasEndTag = false := by
  cases node with
  | text content span => cases h
  | comment content span => cases h
  | element e children =>
      rw [Node.waits?] at h
      split at h
      · rename_i hwaits
        simp only [Bool.and_eq_true, Bool.not_eq_true'] at hwaits
        cases h
        exact ⟨e, children, rfl, rfl, hwaits.2⟩
      · cases h

/-! ## Closing elements -/

/-- An element as it is when it ends. -/
def OpenElement.ended (o : OpenElement) (hasEndTag : Bool) : Element :=
  { o.element with hasEndTag := hasEndTag }

theorem OpenElement.mem_elements_close {o : OpenElement} {hasEndTag : Bool} {e : Element} :
    e ∈ (o.close hasEndTag).elements ↔
      e = o.ended hasEndTag ∨ ∃ n ∈ o.children, e ∈ n.elements := by
  rw [OpenElement.close, mem_elements_element]
  simp only [List.mem_reverse]
  rfl

/-- Elements that end with something around them have no end tag. -/
theorem mem_elements_closeAll {e : Element} : ∀ {opened : List OpenElement} {inner : List Node},
    (∃ n ∈ closeAll inner opened, e ∈ n.elements) ↔ (∃ n ∈ inner, e ∈ n.elements) ∨
      ∃ o ∈ opened, e = o.ended false ∨ ∃ n ∈ o.children, e ∈ n.elements
  | [], inner => by simp [closeAll]
  | o :: opened, inner => by
      have hclose : (∃ n ∈ [OpenElement.close { o with children := inner ++ o.children } false],
          e ∈ n.elements) ↔ e = o.ended false ∨ (∃ n ∈ inner, e ∈ n.elements) ∨
            ∃ n ∈ o.children, e ∈ n.elements := by
        simp only [List.mem_singleton, exists_eq_left, OpenElement.mem_elements_close,
          List.mem_append, or_and_right, exists_or]
        rfl
      rw [closeAll, mem_elements_closeAll, hclose, List.exists_mem_cons_iff, or_assoc, or_assoc,
        or_left_comm, or_assoc]

/-- What an end tag closes: the innermost element of its name, and in its node what was opened
since. -/
theorem closeNamed_eq_some {name : String} : ∀ {opened : List OpenElement} {inner : List Node}
    {node : Node} {outer : List OpenElement}, closeNamed name inner opened = some (node, outer) →
    ∃ since o, opened = since ++ o :: outer ∧ o.element.name = name ∧
      (∀ s ∈ since, s.element.name ≠ name) ∧
      node = OpenElement.close { o with children := closeAll inner since ++ o.children } true
  | [], _, _, _, h => by cases h
  | o :: opened, inner, node, outer, h => by
      rw [closeNamed] at h
      split at h
      · rename_i hname
        cases h
        exact ⟨[], o, rfl, hname, List.forall_mem_nil _, rfl⟩
      · rename_i hname
        obtain ⟨since, o', rfl, hname', hsince, rfl⟩ := closeNamed_eq_some h
        exact ⟨o :: since, o', rfl, hname', List.forall_mem_cons.2 ⟨hname, hsince⟩, rfl⟩

theorem closeNamed_eq_none {name : String} : ∀ {opened : List OpenElement} {inner : List Node},
    closeNamed name inner opened = none ↔ ∀ o ∈ opened, o.element.name ≠ name
  | [], _ => by simp [closeNamed]
  | o :: opened, inner => by
      rw [closeNamed, List.forall_mem_cons]
      split
      · rename_i hname
        refine iff_of_false (Option.some_ne_none _) ?_
        rintro ⟨hne, -⟩
        exact hne hname
      · rename_i hname
        rw [closeNamed_eq_none]
        exact (and_iff_right hname).symm

/-! ## Elements that will not change -/

namespace Builder

/-- A finished node of the tree that is being built. -/
def Holds (b : Builder) (node : Node) : Prop :=
  node ∈ b.finished ∨ ∃ o ∈ b.opened, node ∈ o.children

/-- The element that begins at a place is finished, and whether it has an end tag is settled.  A
void element that waits for its end tag is finished and may still change. -/
def Settled (b : Builder) (start : Start) (hasEndTag : Bool) : Prop :=
  ∃ node, b.Holds node ∧ node.waits? = none ∧
    ∃ e ∈ node.elements, e.start = start ∧ e.hasEndTag = hasEndTag

/-- What is settled in the one tree is so in the other. -/
def Keeps (b b' : Builder) : Prop := ∀ node, b.Holds node → node.waits? = none →
  ∃ node', b'.Holds node' ∧ node'.waits? = none ∧ node.elements ⊆ node'.elements

variable {b b' : Builder} {config : Config}

theorem Keeps.settled {start : Start} {hasEndTag : Bool} (h : b.Keeps b')
    (hs : b.Settled start hasEndTag) : b'.Settled start hasEndTag := by
  obtain ⟨node, hnode, hwaits, e, he, hstart⟩ := hs
  obtain ⟨node', hnode', hwaits', hsub⟩ := h node hnode hwaits
  exact ⟨node', hnode', hwaits', e, hsub he, hstart⟩

theorem Keeps.of_holds (h : ∀ node, b.Holds node → node.waits? = none → b'.Holds node) :
    b.Keeps b' := by
  intro node hnode hwaits
  exact ⟨node, h node hnode hwaits, hwaits, fun _ he => he⟩

theorem holds_of_mem_siblings {node : Node} (h : node ∈ b.siblings) : b.Holds node := by
  obtain ⟨finished, opened, tag⟩ := b
  cases opened with
  | nil => exact Or.inl h
  | cons o outer => exact Or.inr ⟨o, List.mem_cons_self, h⟩

theorem holds_append (b : Builder) (node : Node) : (b.append node).Holds node :=
  holds_of_mem_siblings (by rw [siblings_append]; exact List.mem_cons_self)

theorem keeps_modifyChildren {change : List Node → List Node}
    (h : ∀ node ∈ b.siblings, node.waits? = none → node ∈ change b.siblings) :
    b.Keeps (b.modifyChildren change) := by
  refine Keeps.of_holds ?_
  obtain ⟨finished, opened, tag⟩ := b
  cases opened with
  | nil =>
      rintro node (hnode | ⟨o, ho, -⟩) hwaits
      · exact Or.inl (h node hnode hwaits)
      · cases ho
  | cons o outer =>
      rintro node (hnode | ⟨o', ho', hnode⟩) hwaits
      · exact Or.inl hnode
      · rcases List.mem_cons.1 ho' with rfl | ho'
        · exact Or.inr ⟨_, List.mem_cons_self, h node hnode hwaits⟩
        · exact Or.inr ⟨o', List.mem_cons_of_mem _ ho', hnode⟩

theorem keeps_append (b : Builder) (node : Node) : b.Keeps (b.append node) :=
  keeps_modifyChildren fun _ hnode _ => List.mem_cons_of_mem node hnode

theorem keeps_tag (b : Builder) (tag : Option TagSoFar) : b.Keeps { b with tag := tag } :=
  Keeps.of_holds fun _ hnode _ => hnode

theorem keeps_enter (b : Builder) (tag : Option TagSoFar) (e : Element) :
    b.Keeps ({ b with tag := tag }.enter e) := by
  rw [enter]
  split
  · exact keeps_append { b with tag := tag } _
  · refine Keeps.of_holds ?_
    rintro node (hnode | ⟨o, ho, hnode⟩) -
    · exact Or.inl hnode
    · exact Or.inr ⟨o, List.mem_cons_of_mem _ ho, hnode⟩

/-- Only a node that waits for an end tag is changed by one. -/
theorem mem_markVoidEnd {name : String} {nodes : List Node} (hvoid : isVoid name = true) :
    ∀ node ∈ nodes, node.waits? = none → node ∈ markVoidEnd name nodes := by
  intro node hnode hwaits
  cases hawaits : nodes.head?.any (Node.awaits name) with
  | false => rwa [markVoidEnd_self hawaits]
  | true =>
      obtain ⟨e, children, rest, rfl, hmark, rfl, hself, hend⟩ := markVoidEnd_awaits hawaits
      rw [hmark]
      rcases List.mem_cons.1 hnode with rfl | hnode
      · simp [Node.waits?, hvoid, hself, hend] at hwaits
      · exact List.mem_cons_of_mem _ hnode

/-- The innermost open element of a name closes: its element has an end tag, those that were opened
since have none, and what was finished in any of them stays. -/
theorem mem_elements_closed {o : OpenElement} {since : List OpenElement} {e : Element} :
    e ∈ (OpenElement.close { o with children := closeAll [] since ++ o.children } true).elements ↔
      e = o.ended true ∨ (∃ s ∈ since, e = s.ended false ∨ ∃ n ∈ s.children, e ∈ n.elements) ∨
        ∃ n ∈ o.children, e ∈ n.elements := by
  rw [OpenElement.mem_elements_close]
  simp only [List.mem_append, or_and_right, exists_or, mem_elements_closeAll]
  simp [OpenElement.ended]

/-- The node of an element that closes: it holds all that was opened in the element, and what was
finished there stays settled. -/
theorem closeNamed_settled {name : String} {node : Node} {outer : List OpenElement}
    (hvoid : isVoid name = false) (h : closeNamed name [] b.opened = some (node, outer)) :
    node.waits? = none ∧ b.Keeps ({ b with opened := outer }.append node) ∧
      (∀ n ∈ b.siblings, n.elements ⊆ node.elements) ∧ ∃ since o,
        b.opened = since ++ o :: outer ∧ o.element.name = name ∧
          (∀ s ∈ since, s.element.name ≠ name) ∧ o.ended true ∈ node.elements ∧
          ∀ s ∈ since, s.ended false ∈ node.elements := by
  obtain ⟨since, o, hopened, hname, hsince, hnode⟩ := closeNamed_eq_some h
  have hmem : ∀ e, e ∈ node.elements ↔ e = o.ended true ∨
      (∃ s ∈ since, e = s.ended false ∨ ∃ n ∈ s.children, e ∈ n.elements) ∨
        ∃ n ∈ o.children, e ∈ n.elements := by
    intro e
    rw [hnode]
    exact mem_elements_closed
  have hwaits : node.waits? = none := by
    simp [hnode, OpenElement.close, Node.waits?, hname, hvoid]
  have hinside : ∀ s ∈ since ++ [o], ∀ n ∈ s.children, n.elements ⊆ node.elements := by
    intro s hs n hn e he
    refine (hmem e).2 (Or.inr ?_)
    rcases List.mem_append.1 hs with hs | hs
    · exact Or.inl ⟨s, hs, Or.inr ⟨n, hn, he⟩⟩
    · cases List.mem_singleton.1 hs
      exact Or.inr ⟨n, hn, he⟩
  refine ⟨hwaits, ?_, ?_, since, o, hopened, hname, hsince, (hmem _).2 (Or.inl rfl), ?_⟩
  · intro n hn hwaits'
    have houter : ∀ o' ∈ b.opened, o' ∈ since ++ [o] ∨ o' ∈ outer := by
      intro o' ho'
      rwa [hopened, List.append_cons, List.mem_append] at ho'
    rcases hn with hn | ⟨o', ho', hn⟩
    · exact keeps_append { b with opened := outer } node n (Or.inl hn) hwaits'
    · rcases houter o' ho' with ho' | ho'
      · exact ⟨node, holds_append _ node, hwaits, hinside o' ho' n hn⟩
      · exact keeps_append { b with opened := outer } node n (Or.inr ⟨o', ho', hn⟩) hwaits'
  · intro n hn
    cases since with
    | nil =>
        rw [siblings, hopened] at hn
        exact hinside o List.mem_cons_self n hn
    | cons s since =>
        rw [siblings, hopened] at hn
        exact hinside s List.mem_cons_self n hn
  · intro s hs
    exact (hmem _).2 (Or.inr (Or.inl ⟨s, hs, Or.inl rfl⟩))

end Builder

end TypedTemplate.Markup
