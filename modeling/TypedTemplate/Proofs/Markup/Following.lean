/-
# `TypedTemplate.Proofs.Markup.Following` — the tree follows the tokens

`Builder.Follows` ties the tree that is being built to the tokens it was made from: it has
their stamps, the elements that are open in it are those that the tokens leave open, a void
element waits for its end tag just after its start tag, and every end tag so far has marked
the innermost of the elements of its name and none that was opened since.  Every token that
counts preserves this (`Follows.add`), and the others change nothing.
-/
import TypedTemplate.Proofs.Markup.Kept
import TypedTemplate.Proofs.Markup.Nesting

namespace TypedTemplate.Markup

/-- The token is an end tag. -/
def Token.isCloseTag : Token → Bool
  | .closeTag _ _ => true
  | _ => false

namespace Builder

/-- An end tag after some tokens has marked the innermost open element of its name, and none that
was opened since. -/
def Ended (b : Builder) (inner : String) (before : List Token) : Prop :=
  ∃ since start outer, openBack before = since ++ start :: outer ∧
    start.name = closingName inner ∧ (∀ s ∈ since, s.name ≠ closingName inner) ∧
    b.Settled start true ∧ ∀ s ∈ since, b.Settled s false

/-- The tree was made from the tokens, which are last first. -/
structure Follows (b : Builder) (before : List Token) : Prop where
  stamps : b.stamps = before.reverse.map Token.stamp
  tag : b.tag.map TagSoFar.start = tagBefore? before
  enclosing : b.opened.map (·.element.start) = Markup.enclosing before
  /-- Outside of start tags, the void element that may get an end tag. -/
  waits : b.tag = none → b.siblings.head?.bind Node.waits? = waiting? before
  ended : ∀ inner span earlier, .closeTag inner span :: earlier <:+ before → b.Ended inner earlier

variable {b b' : Builder} {config : Config} {before : List Token} {token : Token}

theorem follows_start : ({} : Builder).Follows [] where
  stamps := rfl
  tag := rfl
  enclosing := rfl
  waits _ := rfl
  ended inner span earlier h := by cases List.suffix_nil.1 h

theorem awaits_eq_waits {name : String} {node : Node} (hvoid : isVoid name = true) :
    node.awaits name = node.waits?.any (·.name = name) := by
  cases node with
  | text content span => rfl
  | comment content span => rfl
  | element e children =>
      by_cases hname : e.name = name
      · cases hself : e.selfClosed <;> cases hend : e.hasEndTag <;>
          simp [Node.awaits, Node.waits?, Element.start, hname, hvoid, hself, hend]
      · cases hwaits : isVoid e.name && !e.selfClosed && !e.hasEndTag <;>
          simp [Node.awaits, Node.waits?, Element.start, hname, hwaits]

theorem Ended.keeps {inner : String} (h : b.Ended inner before) (hkeeps : b.Keeps b') :
    b'.Ended inner before := by
  obtain ⟨since, start, outer, hopen, hname, hsince, hstart, hends⟩ := h
  exact ⟨since, start, outer, hopen, hname, hsince, hkeeps.settled hstart,
    fun s hs => hkeeps.settled (hends s hs)⟩

/-! ## Elements that are open -/

@[simp] theorem modifyChildren_starts (b : Builder) (change : List Node → List Node) :
    (b.modifyChildren change).opened.map (·.element.start) = b.opened.map (·.element.start) := by
  obtain ⟨finished, opened, tag⟩ := b
  cases opened <;> rfl

@[simp] theorem append_starts (b : Builder) (node : Node) :
    (b.append node).opened.map (·.element.start) = b.opened.map (·.element.start) :=
  modifyChildren_starts b _

theorem enter_starts (b : Builder) (e : Element) :
    (b.enter e).opened.map (·.element.start) =
      (if e.selfClosed || isVoid e.name then [] else [e.start]) ++
        b.opened.map (·.element.start) := by
  rw [enter]
  split
  · exact append_starts b _
  · rfl

/-- Right after its start tag, and only there, a void element waits for an end tag. -/
theorem enter_waits (b : Builder) (e : Element) (hend : e.hasEndTag = false) :
    (b.enter e).siblings.head?.bind Node.waits? =
      if !e.selfClosed && isVoid e.name then some e.start else none := by
  rw [enter]
  split
  · rw [siblings_append, List.head?_cons, Option.bind_some, Node.waits?, hend]
    simp [and_comm]
  · rename_i hopen
    rw [Bool.or_eq_true, not_or, Bool.not_eq_true, Bool.not_eq_true] at hopen
    simp [siblings, hopen.2]

namespace Follows

/-- The tree ignores just the tokens that are idle. -/
theorem ignores_eq_idle (h : b.Follows before) (htag : b.tag.isSome = token.isTagPart) :
    (b.ignores token || token.isEmptyBody) = idle before token := by
  cases token with
  | closeTag inner span =>
      have hnone : b.tag = none := tag_eq_none htag rfl
      simp only [ignores, Token.isEmptyBody, Bool.or_false, idle]
      cases hvoid : isVoid (closingName inner) with
      | false => rfl
      | true =>
          have hany : b.siblings.head?.any (Node.awaits (closingName inner)) =
              (b.siblings.head?.bind Node.waits?).any (·.name = closingName inner) := by
            cases b.siblings.head? with
            | none => rfl
            | some node => exact awaits_eq_waits hvoid
          rw [hany, h.waits hnone]
  | _ => rfl

/-- End tags from before keep their elements. -/
theorem ended_cons (h : b.Follows before) (hkeeps : b.Keeps b')
    (hnew : ∀ inner span, token = .closeTag inner span → b'.Ended inner before) :
    ∀ inner span earlier, .closeTag inner span :: earlier <:+ token :: before →
      b'.Ended inner earlier := by
  intro inner span earlier hsuffix
  rcases List.suffix_cons_iff.1 hsuffix with heq | hsuffix
  · obtain ⟨htoken, rfl⟩ := List.cons.inj heq
    exact hnew inner span htoken.symm
  · exact (h.ended inner span earlier hsuffix).keeps hkeeps

/-- A token that is not an end tag leaves them as they are. -/
theorem ended_of_not_close (h : b.Follows before) (hkeeps : b.Keeps b')
    (htoken : token.isCloseTag = false) :
    ∀ inner span earlier, .closeTag inner span :: earlier <:+ token :: before →
      b'.Ended inner earlier := by
  refine h.ended_cons hkeeps ?_
  intro inner span heq
  rw [heq] at htoken
  cases htoken

/-- A node that is not an element is added. -/
theorem append_text {node : Node} (h : b.Follows before) (htag : b.tag = none)
    (hstamps : (b.append node).stamps = (token :: before).reverse.map Token.stamp)
    (hwaits : node.waits? = none) (htagBefore : tagBefore? (token :: before) = none)
    (hjust : justOpened? (token :: before) = none)
    (henclosing : Markup.enclosing (token :: before) = Markup.enclosing before)
    (hclose : token.isCloseTag = false) :
    (b.append node).Follows (token :: before) where
  stamps := hstamps
  tag := by rw [append_tag, htag, htagBefore]; rfl
  enclosing := by rw [append_starts, h.enclosing, henclosing]
  waits _ := by
    rw [siblings_append, List.head?_cons, Option.bind_some, hwaits, waiting?, hjust]
    rfl
  ended := h.ended_of_not_close (keeps_append b node) hclose

/-- A start tag begins, or goes on. -/
theorem with_tag {tag : TagSoFar} (h : b.Follows before)
    (hstamps : Builder.stamps { b with tag := some tag } =
      (token :: before).reverse.map Token.stamp)
    (htagBefore : tagBefore? (token :: before) = some tag.start)
    (henclosing : Markup.enclosing (token :: before) = Markup.enclosing before)
    (hclose : token.isCloseTag = false) :
    Builder.Follows { b with tag := some tag } (token :: before) where
  stamps := hstamps
  tag := htagBefore.symm
  enclosing := by rw [henclosing, ← h.enclosing]
  waits hnone := by cases hnone
  ended := h.ended_of_not_close (keeps_tag b _) hclose

/-- A start tag ends. -/
theorem enter {tag : TagSoFar} {selfClosed : Bool} (h : b.Follows before) (htag : b.tag = some tag)
    (hstamps : ({ b with tag := none }.enter (tag.element selfClosed)).stamps =
      (token :: before).reverse.map Token.stamp)
    (htoken : ∃ span, token = if selfClosed then .tagSelfClose span else .tagEnd span) :
    ({ b with tag := none }.enter (tag.element selfClosed)).Follows (token :: before) := by
  obtain ⟨span, rfl⟩ := htoken
  have hbefore : tagBefore? before = some tag.start := by rw [← h.tag, htag]; rfl
  refine ⟨hstamps, ?_, ?_, ?_, h.ended_of_not_close (keeps_enter b none _) ?_⟩
  · rw [enter_tag]
    cases selfClosed <;> rfl
  · rw [enter_starts]
    show _ ++ b.opened.map (·.element.start) = _
    rw [h.enclosing]
    cases selfClosed with
    | true => rfl
    | false =>
        cases hvoid : isVoid tag.name <;>
          simp [Markup.enclosing, hbefore, TagSoFar.element, TagSoFar.start, Element.start, hvoid,
            Option.filter_some]
  · intro hnone
    rw [enter_waits _ _ rfl]
    cases selfClosed with
    | true => rfl
    | false =>
        cases hvoid : isVoid tag.name <;>
          simp [waiting?, justOpened?, hbefore, TagSoFar.element, TagSoFar.start, Element.start,
            hvoid, Option.filter_some]
  · cases selfClosed <;> rfl

/-- A void element gets its end tag. -/
theorem close_void {inner : String} {span : Span} (h : b.Follows before) (htag : b.tag = none)
    (hvoid : isVoid (closingName inner) = true)
    (hawaits : b.siblings.head?.any (Node.awaits (closingName inner)) = true)
    (hstamps : (b.modifyChildren (markVoidEnd (closingName inner))).stamps =
      (Token.closeTag inner span :: before).reverse.map Token.stamp) :
    (b.modifyChildren (markVoidEnd (closingName inner))).Follows
      (.closeTag inner span :: before) := by
  obtain ⟨e, children, rest, hsiblings, hmark, hname, hself, hend⟩ := markVoidEnd_awaits hawaits
  have hmarked : (b.modifyChildren (markVoidEnd (closingName inner))).siblings =
      .element { e with hasEndTag := true } children :: rest := by
    rw [siblings_modifyChildren, hmark]
  have hwaiting : waiting? before = some e.start := by
    rw [← h.waits htag, hsiblings]
    simp [Node.waits?, hname, hvoid, hself, hend]
  refine ⟨hstamps, ?_, ?_, ?_, h.ended_cons ?_ ?_⟩
  · rw [modifyChildren_tag, htag]
    rfl
  · rw [modifyChildren_starts, h.enclosing, Markup.enclosing, if_pos hvoid]
  · intro hnone
    rw [hmarked]
    simp [Node.waits?, waiting?, justOpened?]
  · exact keeps_modifyChildren fun node hnode => mem_markVoidEnd hvoid node hnode
  · rintro inner' span' ⟨⟩
    refine ⟨[], e.start, Markup.enclosing before, ?_, hname, List.forall_mem_nil _, ?_,
      List.forall_mem_nil _⟩
    · rw [openBack, hwaiting]
      rfl
    · refine ⟨_, holds_of_mem_siblings (by rw [hmarked]; exact List.mem_cons_self), ?_,
        { e with hasEndTag := true }, mem_elements_element.2 (Or.inl rfl), rfl, rfl⟩
      simp [Node.waits?]

/-- A void element that waits is finished and has no end tag. -/
theorem waiting_mem {start : Start} (h : b.Follows before) (htag : b.tag = none)
    (hstart : start ∈ (waiting? before).toList) :
    ∃ n ∈ b.siblings, ∃ e ∈ n.elements, e.start = start ∧ e.hasEndTag = false := by
  rw [← h.waits htag, Option.mem_toList, Option.bind_eq_some_iff] at hstart
  obtain ⟨n, hhead, hn⟩ := hstart
  obtain ⟨e, children, rfl, rfl, hend⟩ := waits?_eq_some hn
  exact ⟨_, List.mem_of_mem_head? hhead, e, mem_elements_element.2 (Or.inl rfl), rfl, hend⟩

/-- The innermost open element of a name gets its end tag. -/
theorem close_named {inner : String} {span : Span} {node : Node} {outer : List OpenElement}
    (h : b.Follows before) (htag : b.tag = none) (hvoid : isVoid (closingName inner) = false)
    (hclose : closeNamed (closingName inner) [] b.opened = some (node, outer))
    (hstamps : ({ b with opened := outer }.append node).stamps =
      (Token.closeTag inner span :: before).reverse.map Token.stamp) :
    ({ b with opened := outer }.append node).Follows (.closeTag inner span :: before) := by
  obtain ⟨hwaits, hkeeps, hsiblings, since, o, hopened, hname, hsince, ho, hended⟩ :=
    closeNamed_settled hvoid hclose
  have henclosing : Markup.enclosing before = since.map (·.element.start) ++ o.element.start ::
      outer.map (·.element.start) := by
    rw [← h.enclosing, hopened, List.map_append, List.map_cons]
  have hsettled : ∀ e ∈ node.elements,
      ({ b with opened := outer }.append node).Settled e.start e.hasEndTag :=
    fun e he => ⟨node, holds_append _ node, hwaits, e, he, rfl, rfl⟩
  refine ⟨hstamps, ?_, ?_, ?_, h.ended_cons hkeeps ?_⟩
  · rw [append_tag, htag]
    rfl
  · have hdrop : ∀ s ∈ since.map (·.element.start), (s.name != closingName inner) = true := by
      intro s hs
      obtain ⟨o', ho', rfl⟩ := List.mem_map.1 hs
      exact bne_iff_ne.2 (hsince o' ho')
    rw [append_starts, Markup.enclosing, hvoid, henclosing, List.dropWhile_append_of_pos hdrop,
      List.dropWhile_cons_of_neg (by simp [Element.start, hname])]
    rfl
  · intro hnone
    rw [siblings_append, List.head?_cons, Option.bind_some, hwaits]
    rfl
  · rintro inner' span' ⟨⟩
    -- a void element that still waits is in the node that closes, with all other siblings
    refine ⟨(waiting? before).toList ++ since.map (·.element.start), o.element.start,
      outer.map (·.element.start), ?_, hname, ?_, hsettled _ ho, ?_⟩
    · rw [openBack, henclosing, List.append_assoc]
    · intro s hs
      rcases List.mem_append.1 hs with hs | hs
      · exact waiting_ne hvoid s hs
      · obtain ⟨o', ho', rfl⟩ := List.mem_map.1 hs
        exact hsince o' ho'
    · intro s hs
      rcases List.mem_append.1 hs with hs | hs
      · obtain ⟨n, hn, e, hmem, rfl, hend⟩ := h.waiting_mem htag hs
        have he := hsettled e (hsiblings n hn hmem)
        rwa [hend] at he
      · obtain ⟨o', ho', rfl⟩ := List.mem_map.1 hs
        exact hsettled _ (hended o' ho')

/-- What a token adds: nothing if it is idle. -/
theorem add (h : b.Follows before) (hadd : Adds config b token b')
    (htag : b.tag.isSome = token.isTagPart) (hfresh : ∀ t ∈ b.tag, t.Fresh) :
    b'.Follows (if idle before token then before else token :: before) := by
  have hstamps := stamps_add hadd htag hfresh
  rw [h.ignores_eq_idle htag, h.stamps] at hstamps
  have hnone := tag_eq_none htag
  cases hidle : idle before token with
  | true =>
      have hignores := h.ignores_eq_idle htag
      rw [hidle, Bool.or_eq_true] at hignores
      have hsame : b' = b := by
        rcases hignores with hignores | hempty
        · exact add_ignores hadd hignores
        · exact add_isEmptyBody hadd hempty
      rw [if_pos rfl, hsame]
      exact h
  | false =>
      rw [if_neg Bool.false_ne_true]
      rw [hidle, if_neg Bool.false_ne_true, ← List.map_singleton, ← List.map_append,
        ← List.reverse_cons] at hstamps
      cases hadd with
      | text content span => exact h.append_text (hnone rfl) hstamps rfl rfl rfl rfl rfl
      | comment content span => exact h.append_text (hnone rfl) hstamps rfl rfl rfl rfl rfl
      | rawEmpty span hempty =>
          subst hempty
          cases hidle
      | raw span hne => exact h.append_text (hnone rfl) hstamps rfl rfl rfl rfl rfl
      | openTag hcheck => exact h.with_tag hstamps rfl rfl rfl
      | attributeName hsome =>
          refine h.with_tag hstamps ?_ rfl rfl
          rw [tagBefore?, ← h.tag, hsome]
          rfl
      | attributeValue hsome hvalue =>
          obtain ⟨-, last, earlier, -, rfl⟩ := addValue?_eq_some.1 hvalue
          refine h.with_tag hstamps ?_ rfl rfl
          rw [tagBefore?, ← h.tag, hsome]
          rfl
      | @tagEnd span tag hsome hmissing => exact h.enter hsome hstamps ⟨span, rfl⟩
      | @tagSelfClose span tag hsome hmissing => exact h.enter hsome hstamps ⟨span, rfl⟩
      | closeVoid hcheck hvoid =>
          have hignores := h.ignores_eq_idle htag
          simp only [hidle, ignores, Token.isEmptyBody, hvoid, Bool.true_and, Bool.or_false,
            Bool.not_eq_false'] at hignores
          exact h.close_void (hnone rfl) hvoid hignores hstamps
      | closeNamed hcheck hvoid hclose => exact h.close_named (hnone rfl) hvoid hclose hstamps
      | stray hstray hpart =>
          rw [hstray, hpart] at htag
          cases htag

end Follows

end Builder

/-- The tree that was made from the first tokens of a text follows them. -/
theorem ReadsTo.follows {config : Config} {cs rest : List Char} {mode' : Mode} {pos' : Nat}
    {tokens : List Token} {b : Builder} (h : ReadsTo .content 0 cs tokens mode' pos' rest)
    (hadd : Builder.addAll config {} tokens = .ok b) :
    b.Follows (countedBack tokens.reverse) ∧ b.Faithful mode' rest := by
  have hstart : Builder.Follows {} (countedBack []) ∧ Builder.Faithful .content cs {} :=
    ⟨Builder.follows_start, .start cs, fun t ht => nomatch ht⟩
  have hend := h.preserves
    (I := fun before mode cs b => b.Follows (countedBack before) ∧ b.Faithful mode cs)
    (fun hread hb hstep => by
      have hadds := add_eq_ok.1 hstep
      refine ⟨?_, hb.2.toSound.add hread hstep, Builder.add_fresh hadds hb.2.fresh⟩
      exact hb.1.add hadds (hread.isTagPart hb.2.tag) hb.2.fresh)
    [] hstart hadd
  rwa [List.append_nil] at hend

end TypedTemplate.Markup
