/-
# `TypedTemplate.Proofs.Markup.Tree` — the tree of a text, seen from its tokens

`Document.Follows` says all there is to say of a tree from its tokens: walked in document
order it gives them back with their places, and every end tag among them belongs to the
innermost element of its name that is open there, while the elements opened since have
none.  What was read follows the tokens of its text, those without a trace left out; and an
end tag is reported as unmatched exactly if the tokens before it were taken and leave no
element of its name open (`Document.read_follows`).

The name in an end tag is looked at first: an empty name, or one with a capital letter, is
refused whatever is open.
-/
import TypedTemplate.Proofs.Markup.Following
import TypedTemplate.Proofs.Markup.Slices

namespace TypedTemplate.Markup

/-! ## Places where elements begin -/

/-- The place where a stamp begins an element. -/
def Stamp.start? : Stamp → Option Start
  | ⟨.openTag name, some span⟩ => some ⟨name, span⟩
  | _ => none

theorem Attribute.starts_stamps (a : Attribute) : a.stamps.filterMap Stamp.start? = [] := by
  rw [Attribute.stamps]
  cases a.quote <;> cases a.valueSpan? <;> rfl

theorem Element.starts_openStamps (e : Element) :
    e.openStamps.filterMap Stamp.start? = [e.start] := by
  have hattributes : (e.attributes.flatMap Attribute.stamps).filterMap Stamp.start? = [] := by
    induction e.attributes with
    | nil => rfl
    | cons a attributes ih =>
        rw [List.flatMap_cons, List.filterMap_append, a.starts_stamps, ih]
        rfl
  rw [Element.openStamps, List.filterMap_cons, List.filterMap_append, hattributes]
  cases hself : e.selfClosed <;> rfl

theorem Element.starts_closeStamps (e : Element) : e.closeStamps.filterMap Stamp.start? = [] := by
  rw [Element.closeStamps]
  cases e.hasEndTag <;> rfl

mutual

theorem Node.starts_stamps : ∀ node : Node,
    node.stamps.filterMap Stamp.start? = node.elements.map Element.start
  | .text _ _ => rfl
  | .comment _ _ => rfl
  | .element e children => by
      rw [Node.stamps, Node.elements, List.filterMap_append, List.filterMap_append,
        e.starts_openStamps, e.starts_closeStamps, Node.starts_stampsAll children,
        List.append_nil]
      rfl

theorem Node.starts_stampsAll : ∀ nodes : List Node,
    (Node.stampsAll nodes).filterMap Stamp.start? = (Node.elementsAll nodes).map Element.start
  | [] => rfl
  | node :: rest => by
      rw [Node.stampsAll, Node.elementsAll, List.filterMap_append, List.map_append,
        Node.starts_stamps node, Node.starts_stampsAll rest]

end

theorem Token.start?_stamp {token : Token} {start : Start} :
    token.stamp.start? = some start ↔ token = .openTag start.name start.span := by
  cases token with
  | openTag name span =>
      obtain ⟨name', span'⟩ := start
      simp [Token.stamp, Stamp.start?]
  | _ =>
      constructor
      · intro h
        cases h
      · intro h
        cases h

/-- Two start tags of a text begin at different places. -/
theorem ReadsTo.starts_nodup {mode mode' : Mode} {pos pos' : Nat} {cs rest : List Char}
    {tokens : List Token} (h : ReadsTo mode pos cs tokens mode' pos' rest) :
    (tokens.filterMap fun token => token.stamp.start?).Nodup := by
  have hlt : (tokens.filterMap fun token => token.stamp.start?).Pairwise
      fun a b => a.span.start < b.span.start := by
    rw [List.pairwise_filterMap]
    refine h.ordered.2.imp_of_mem ?_
    intro token token' htoken htoken' hle start hstart start' hstart'
    have hlength := h.length token htoken
    rw [Token.start?_stamp] at hstart hstart'
    rw [hstart, hstart'] at hle
    have hless : 0 < Char.utf8Size '<' := Char.utf8Size_pos '<'
    rw [hstart, Token.chars, Text.size_cons] at hlength
    simp only [Token.span, Span.stop] at hle hlength
    omega
  exact hlt.imp fun hlt heq => hlt.ne (congrArg (·.span.start) heq)

/-! ## End tags at fault -/

theorem checkTagName_ok {name : String} {span : Span} : checkTagName name span = .ok () ↔
    name ≠ "" ∧ ∀ c ∈ name.toList, Text.isUppercase c = false := by
  rw [checkTagName]
  split
  · rename_i hempty
    simp [structural, String.isEmpty_iff.1 hempty]
  · rename_i hempty
    split
    · rename_i hupper
      obtain ⟨c, hc, hcapital⟩ := List.any_eq_true.1 hupper
      constructor
      · intro h
        cases h
      · rintro ⟨-, hlower⟩
        rw [hlower c hc] at hcapital
        cases hcapital
    · rename_i hupper
      refine iff_of_true rfl ⟨fun hnil => hempty (String.isEmpty_iff.2 hnil), ?_⟩
      intro c hc
      exact Bool.eq_false_iff.2 fun hcapital => hupper (List.any_eq_true.2 ⟨c, hc, hcapital⟩)

theorem checkTagName_ne_unmatched {name name' : String} {span span' : Span} :
    checkTagName name' span' ≠ .error ⟨.unmatchedEndTag name, span⟩ := by
  intro h
  rw [checkTagName] at h
  split at h
  · cases h
  · split at h <;> cases h

namespace Builder

variable {config : Config} {b : Builder} {name : String} {span : Span}

theorem endTag_ne_unmatched {tag : TagSoFar} {selfClosed : Bool} :
    b.endTag tag selfClosed ≠ .error ⟨.unmatchedEndTag name, span⟩ := by
  intro h
  rw [endTag] at h
  split at h <;> cases h

/-- An end tag that finds nothing to close. -/
theorem close_eq_unmatched {name' : String} {span' : Span} :
    b.close name' span' = .error ⟨.unmatchedEndTag name, span⟩ ↔ name' = name ∧ span' = span ∧
      isVoid name = false ∧ ∀ o ∈ b.opened, o.element.name ≠ name := by
  rw [close]
  cases hvoid : isVoid name' with
  | true =>
      constructor
      · intro h
        cases h
      · rintro ⟨rfl, -, hnot, -⟩
        cases hvoid.symm.trans hnot
  | false =>
      rw [if_neg Bool.false_ne_true]
      cases hclose : closeNamed name' [] b.opened with
      | some closed =>
          constructor
          · intro h
            cases h
          · rintro ⟨rfl, -, -, hnone⟩
            cases hclose.symm.trans (closeNamed_eq_none.2 hnone)
      | none =>
          constructor
          · intro h
            cases h
            exact ⟨rfl, rfl, hvoid, closeNamed_eq_none.1 hclose⟩
          · rintro ⟨rfl, rfl, -, -⟩
            rfl

theorem add_eq_unmatched {token : Token} :
    b.add config token = .error ⟨.unmatchedEndTag name, span⟩ ↔
      ∃ inner, token = .closeTag inner span ∧ closingName inner = name ∧
        checkTagName name span = .ok () ∧ isVoid name = false ∧
        ∀ o ∈ b.opened, o.element.name ≠ name := by
  constructor
  · intro h
    unfold add at h
    split at h
    · cases h
    · cases h
    · split at h <;> cases h
    · rcases Except.bind_eq_error.1 h with h | ⟨⟨⟩, -, h⟩
      · exact (checkTagName_ne_unmatched h).elim
      · cases h
    · rename_i inner span'
      rcases Except.bind_eq_error.1 h with h | ⟨⟨⟩, hcheck, h⟩
      · exact (checkTagName_ne_unmatched h).elim
      · obtain ⟨rfl, rfl, hvoid, hclose⟩ := close_eq_unmatched.1 h
        exact ⟨inner, rfl, rfl, hcheck, hvoid, hclose⟩
    · cases h
    · split at h <;> cases h
    · exact (endTag_ne_unmatched h).elim
    · exact (endTag_ne_unmatched h).elim
    · cases h
  · rintro ⟨inner, rfl, rfl, hcheck, hvoid, hclose⟩
    have hunmatched : b.close (closingName inner) span = _ :=
      close_eq_unmatched.2 ⟨rfl, rfl, hvoid, hclose⟩
    exact Except.bind_eq_error.2 (Or.inr ⟨(), hcheck, hunmatched⟩)

end Builder

theorem Document.read_eq_unmatched {config : Config} {source : Source} {name : String}
    {span : Span} :
    Document.read config source = .error (.structural ⟨.unmatchedEndTag name, span⟩) ↔
      Builder.addAll config {} (scan source.chars).tokens =
        .error ⟨.unmatchedEndTag name, span⟩ := by
  have hfinish : ∀ b : Builder, b.finish config ≠ .error ⟨.unmatchedEndTag name, span⟩ := by
    intro b h
    rw [Builder.finish] at h
    split at h <;> cases h
  rw [Document.read, Document.ofTokens]
  cases hadd : Builder.addAll config {} (scan source.chars).tokens with
  | error fault => simp
  | ok b =>
      cases hfault : (scan source.chars).fault with
      | some fault => simp
      | none =>
          constructor
          · intro h
            dsimp only at h
            split at h
            · cases h
            · rename_i hb
              cases h
              exact (hfinish b hb).elim
          · intro h
            cases h

/-! ## Trees -/

/-- The tree of some tokens. -/
structure Document.Follows (document : Document) (tokens : List Token) : Prop where
  /-- Walked in document order it gives back the tokens. -/
  stamps : document.stamps = tokens.map Token.stamp
  /-- An element is told by the place where it begins. -/
  distinct : (document.elements.map Element.start).Nodup
  /-- An end tag belongs to the innermost element of its name that is open, and the elements
  opened since have none. -/
  ended : ∀ before inner span after, tokens = before ++ .closeTag inner span :: after →
    ∃ since start outer, openElements before = since ++ start :: outer ∧
      start.name = closingName inner ∧ (∀ s ∈ since, s.name ≠ closingName inner) ∧
      (∃ e ∈ document.elements, e.start = start ∧ e.hasEndTag = true) ∧
      ∀ s ∈ since, ∃ e ∈ document.elements, e.start = s ∧ e.hasEndTag = false

theorem Builder.Settled.finish {config : Config} {b : Builder} {document : Document}
    {start : Start} {hasEndTag : Bool} (h : b.Settled start hasEndTag)
    (hfinish : b.finish config = .ok document) :
    ∃ e ∈ document.elements, e.start = start ∧ e.hasEndTag = hasEndTag := by
  obtain ⟨node, hnode, -, e, he, hstart⟩ := h
  refine ⟨e, ?_, hstart⟩
  rw [Builder.finish_ok hfinish, Document.elements_eq, Node.elementsAll_eq, List.mem_flatMap]
  simp only [List.mem_reverse, List.mem_append, or_and_right, exists_or, mem_elements_closeAll]
  rcases hnode with hnode | ⟨o, ho, hnode⟩
  · exact Or.inr ⟨node, hnode, he⟩
  · exact Or.inl (Or.inr ⟨o, ho, Or.inr ⟨node, hnode, he⟩⟩)

/-- What was read follows the tokens that leave a trace. -/
theorem Document.follows_counted {config : Config} {source : Source} {document : Document}
    (h : Document.read config source = .ok document) :
    document.Follows (counted (scan source.chars).tokens) := by
  obtain ⟨pos, b, hto, hadd, hfinish⟩ := Document.read_tokens h
  obtain ⟨hfollows, hfaithful⟩ := hto.follows hadd
  generalize (scan source.chars).tokens = tokens at hto hfollows ⊢
  have hstamps : document.stamps = (counted tokens).map Token.stamp := by
    rw [Document.stamps_finish hfaithful.tag hfinish, hfollows.stamps]
    rfl
  refine ⟨hstamps, ?_, ?_⟩
  · have hstarts : document.elements.map Element.start =
        (counted tokens).filterMap fun token => token.stamp.start? := by
      have hall := Node.starts_stampsAll document.children
      rw [Document.elements_eq, ← hall]
      show document.stamps.filterMap Stamp.start? = _
      rw [hstamps, List.filterMap_map]
      rfl
    rw [hstarts]
    exact hto.starts_nodup.sublist ((counted_sublist tokens).filterMap _)
  · intro before inner span after hcounted
    have hsuffix : Token.closeTag inner span :: before.reverse <:+ countedBack tokens.reverse := by
      have hback := congrArg List.reverse hcounted
      rw [counted, List.reverse_reverse, List.reverse_append, List.reverse_cons,
        List.append_assoc] at hback
      exact ⟨after.reverse, hback.symm⟩
    obtain ⟨since, start, outer, hopen, hname, hsince, hstart, hends⟩ :=
      hfollows.ended inner span before.reverse hsuffix
    exact ⟨since, start, outer, hopen, hname, hsince, hstart.finish hfinish,
      fun s hs => (hends s hs).finish hfinish⟩

/-- An element that is not void is open in the tree if the tokens leave it open. -/
theorem Builder.Follows.not_open_iff {b : Builder} {before : List Token} {name : String}
    (h : b.Follows before) (hvoid : isVoid name = false) :
    (∀ o ∈ b.opened, o.element.name ≠ name) ↔ ∀ s ∈ openBack before, s.name ≠ name := by
  have henclosing : (∀ o ∈ b.opened, o.element.name ≠ name) ↔
      ∀ s ∈ Markup.enclosing before, s.name ≠ name := by
    rw [← h.enclosing, List.forall_mem_map]
    rfl
  rw [henclosing, openBack, List.forall_mem_append]
  exact (and_iff_right (waiting_ne hvoid)).symm

/-- An end tag is unmatched if it is the first token that is not taken, its name is one a tag may
have, and no element of that name is open. -/
theorem Document.unmatched_iff {config : Config} {source : Source} {name : String} {span : Span} :
    Document.read config source = .error (.structural ⟨.unmatchedEndTag name, span⟩) ↔
      ∃ before inner after, (scan source.chars).tokens = before ++ .closeTag inner span :: after ∧
        (Builder.addAll config {} before).Succeeds ∧ closingName inner = name ∧
        (name ≠ "" ∧ ∀ c ∈ name.toList, Text.isUppercase c = false) ∧ isVoid name = false ∧
        ∀ s ∈ openElements (counted before), s.name ≠ name := by
  have hopen : ∀ before after b, (scan source.chars).tokens = before ++ after →
      Builder.addAll config {} before = .ok b → isVoid name = false →
        ((∀ o ∈ b.opened, o.element.name ≠ name) ↔
          ∀ s ∈ openElements (counted before), s.name ≠ name) := by
    intro before after b htokens hadd hvoid
    obtain ⟨mode', pos', rest, hto⟩ := ReadsTo.of_scanFrom htokens
    rw [(hto.follows hadd).1.not_open_iff hvoid, openElements, counted, List.reverse_reverse]
  rw [Document.read_eq_unmatched, Builder.addAll_eq_error]
  constructor
  · rintro ⟨before, token, after, b, htokens, hadd, htoken⟩
    obtain ⟨inner, rfl, hname, hcheck, hvoid, hclosed⟩ := Builder.add_eq_unmatched.1 htoken
    exact ⟨before, inner, after, htokens, ⟨b, hadd⟩, hname, checkTagName_ok.1 hcheck, hvoid,
      (hopen _ _ b htokens hadd hvoid).1 hclosed⟩
  · rintro ⟨before, inner, after, htokens, ⟨b, hadd⟩, hname, hcheck, hvoid, hclosed⟩
    exact ⟨before, _, after, b, htokens, hadd, Builder.add_eq_unmatched.2 ⟨inner, rfl, hname,
      checkTagName_ok.2 hcheck, hvoid, (hopen _ _ b htokens hadd hvoid).2 hclosed⟩⟩

/-- What was read follows the tokens of its text that leave a trace.  An end tag is reported as
unmatched if and only if it is the first token that is not taken, its name is one a tag may have and
not a void element's, and no element of that name is open. -/
theorem Document.read_follows (config : Config) (source : Source) :
    (∀ document, Document.read config source = .ok document →
      document.Follows (counted (scan source.chars).tokens)) ∧
    ∀ name span, Document.read config source = .error (.structural ⟨.unmatchedEndTag name, span⟩) ↔
      ∃ before inner after, (scan source.chars).tokens = before ++ .closeTag inner span :: after ∧
        (Builder.addAll config {} before).Succeeds ∧ closingName inner = name ∧
        (name ≠ "" ∧ ∀ c ∈ name.toList, Text.isUppercase c = false) ∧ isVoid name = false ∧
        ∀ s ∈ openElements (counted before), s.name ≠ name := by
  constructor
  · intro document hread
    exact Document.follows_counted hread
  · intro name span
    exact Document.unmatched_iff

/-! ## A menu -/

namespace Menu

/-- A list; its items have no end tags, and the last end tag leaves no trace. -/
def drinks : Source := .ofString "drinks" "<ul><li>Tea<br></br><li>Milk</ul></br>"

/-- An end tag where nothing of its name is open. -/
def torn : Source := .ofString "torn" "<p></b></p>"

/-- An end tag whose name no tag may have. -/
def shouted : Source := .ofString "shouted" "</DIV>"

/-- The list ends its items, and the torn text is refused. -/
theorem read_follows_drinks : ∃ document, Document.read {} drinks = .ok document ∧
    document.Follows (counted (scan drinks.chars).tokens) ∧
    (document.elements.map fun e => (e.name, e.hasEndTag)) =
      [("ul", true), ("li", false), ("br", true), ("li", false)] ∧
    Document.read {} torn = .error (.structural ⟨.unmatchedEndTag "b", ⟨3, 4⟩⟩) := by
  have helements : (Document.read {} drinks).toOption.map
      (fun document => document.elements.map fun e => (e.name, e.hasEndTag)) =
        some [("ul", true), ("li", false), ("br", true), ("li", false)] := by decide +kernel
  obtain ⟨document, hread, hdocument⟩ := Option.map_eq_some_iff.1 helements
  have hread := Except.toOption_eq_some.1 hread
  have htokens : (scan torn.chars).tokens = [.openTag "p" ⟨0, 2⟩, .tagEnd ⟨2, 1⟩] ++
      .closeTag "b" ⟨3, 4⟩ :: [.closeTag "p" ⟨7, 4⟩] := by decide +kernel
  have hlower : ∀ c ∈ "b".toList, Text.isUppercase c = false :=
    List.forall_mem_singleton.2 (by decide +kernel)
  refine ⟨document, hread, (Document.read_follows {} drinks).1 document hread, hdocument, ?_⟩
  exact ((Document.read_follows {} torn).2 "b" ⟨3, 4⟩).2 ⟨_, "b", _, htokens, by decide +kernel,
    by decide +kernel, ⟨by decide, hlower⟩, by decide +kernel, by decide +kernel⟩

/-- An end tag that finds nothing to close need not be reported as unmatched. -/
theorem shouted_not_unmatched : ¬ ((∃ name span,
      Document.read {} shouted = .error (.structural ⟨.unmatchedEndTag name, span⟩)) ↔
    ∃ before inner span after,
      (scan shouted.chars).tokens = before ++ .closeTag inner span :: after ∧
        isVoid (closingName inner) = false ∧
          ∀ s ∈ openElements (counted before), s.name ≠ closingName inner) := by
  have htokens : (scan shouted.chars).tokens = [.closeTag "DIV" ⟨0, 6⟩] := by decide +kernel
  intro h
  obtain ⟨name, span, hread⟩ :=
    h.2 ⟨[], "DIV", ⟨0, 6⟩, [], htokens, by decide +kernel, List.forall_mem_nil _⟩
  obtain ⟨before, inner, after, hsplit, -, hname, ⟨-, hlower⟩, -⟩ := Document.unmatched_iff.1 hread
  rw [htokens] at hsplit
  have hinner : inner = "DIV" := by
    cases before with
    | nil =>
        cases hsplit
        rfl
    | cons token before => cases before <;> cases hsplit
  have hcapital : 'D' ∈ name.toList := by
    rw [← hname, hinner]
    decide +kernel
  exact absurd (hlower 'D' hcapital) (by decide +kernel)

end Menu

end TypedTemplate.Markup
