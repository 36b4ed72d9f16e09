/-
# `TypedTemplate.Proofs.Markup.WellFormed` — what holds of every tree that was read

A tag that closes itself leaves no room for children or an end tag, and a raw text element
holds nothing but text.  The first is a matter of the builder.  The second is one of the
reader: after the body of a raw text element comes an end tag, which cannot be a void
element's, and taking it closes the element, whatever its name is.  `Sound` is what holds
of the builder at every token; it includes that reader and builder are in the same start
tag, if in any.
-/
import TypedTemplate.Proofs.Markup.Adds
import TypedTemplate.Proofs.Markup.Closing

namespace TypedTemplate.Markup

open Text

/-- The node is text. -/
def Node.IsText : Node → Prop
  | .text _ _ => True
  | _ => False

/-- An element and its children fit each other. -/
structure Element.Fits (e : Element) (children : List Node) : Prop where
  /-- A tag that closes itself leaves no room for children or an end tag. -/
  alone : e.selfClosed = true → children = [] ∧ e.hasEndTag = false
  /-- A raw text element holds text. -/
  raw : isRawText e.name = true → ∀ n ∈ children, n.IsText

mutual

/-- All elements of the node fit their children. -/
def Node.WellFormed : Node → Prop
  | .element e children => e.Fits children ∧ Node.WellFormedAll children
  | .text _ _ => True
  | .comment _ _ => True
termination_by structural node => node

/-- All elements of some nodes fit their children. -/
def Node.WellFormedAll : List Node → Prop
  | [] => True
  | node :: rest => node.WellFormed ∧ Node.WellFormedAll rest
termination_by structural nodes => nodes

end

theorem Node.wellFormedAll_iff {nodes : List Node} :
    Node.WellFormedAll nodes ↔ ∀ n ∈ nodes, n.WellFormed := by
  induction nodes with
  | nil => simp [Node.WellFormedAll]
  | cons n nodes ih => simp [Node.WellFormedAll, ih]

/-! ## The builder at a token -/

/-- Reader and builder are in the same start tag, if in any. -/
def Mode.Agrees (mode : Mode) (tag : Option TagSoFar) : Prop :=
  match mode with
  | .tag _ element => ∃ t, tag = some t ∧ t.name = element
  | _ => tag = none

/-- The element is not a raw text element. -/
abbrev OpenElement.IsMarkup (o : OpenElement) : Prop := isRawText o.element.name = false

theorem OpenElement.IsMarkup.not_raw {o : OpenElement} (h : o.IsMarkup) :
    ¬ isRawText o.element.name = true := Bool.eq_false_iff.1 h

/-- Where a raw text element may be open: in its body, or at the end tag after that. -/
def RawOpen (mode : Mode) (cs : List Char) (o : OpenElement) : Prop :=
  isRawText o.element.name = true ∧
    match mode with
    | .content => (∀ n ∈ o.children, n.IsText) ∧ endsRawText o.element.name.toList cs = true
    | .tag _ _ => False
    | .raw _ element => o.element.name = element ∧ o.children = []

/-- An open element has no tag that closes itself, and what is in it is well formed. -/
structure OpenElement.Sound (o : OpenElement) : Prop where
  opened : o.element.selfClosed = false
  children : ∀ n ∈ o.children, n.WellFormed

/-- What holds of the builder when the reader is at `cs`. -/
structure Builder.Sound (mode : Mode) (cs : List Char) (b : Builder) : Prop where
  tag : mode.Agrees b.tag
  finished : ∀ n ∈ b.finished, n.WellFormed
  opened : ∀ o ∈ b.opened, o.Sound
  /-- Only the innermost element may be a raw text element. -/
  outer : ∀ o ∈ b.opened.tail, o.IsMarkup
  raw : ∀ o ∈ b.opened.head?, o.IsMarkup ∨ RawOpen mode cs o

/-! ## Closing elements -/

theorem OpenElement.Sound.close {o : OpenElement} (h : o.Sound)
    (hraw : isRawText o.element.name = true → ∀ n ∈ o.children, n.IsText) (hasEndTag : Bool) :
    (o.close hasEndTag).WellFormed := by
  refine ⟨⟨fun hself => ?_, fun hr n hn => hraw hr n (List.mem_reverse.1 hn)⟩, ?_⟩
  · have hopened := h.opened
    rw [show o.element.selfClosed = true from hself] at hopened
    cases hopened
  · rw [Node.wellFormedAll_iff]
    intro n hn
    exact h.children n (List.mem_reverse.1 hn)

theorem OpenElement.Sound.append {o : OpenElement} (h : o.Sound) {inner : List Node}
    (hinner : ∀ n ∈ inner, n.WellFormed) :
    OpenElement.Sound { o with children := inner ++ o.children } := by
  refine ⟨h.opened, ?_⟩
  intro n hn
  rcases List.mem_append.1 hn with hn | hn
  · exact hinner n hn
  · exact h.children n hn

/-- Closing an element closes the innermost one in any case. -/
theorem closeNamed_sound {name : String} : ∀ {opened : List OpenElement} {inner : List Node}
    {node : Node} {outer : List OpenElement}, closeNamed name inner opened = some (node, outer) →
    (∀ o ∈ opened, o.Sound) → (∀ o ∈ opened.tail, o.IsMarkup) →
    (∀ o ∈ opened.head?, o.IsMarkup ∨ ∀ n ∈ inner ++ o.children, n.IsText) →
    (∀ n ∈ inner, n.WellFormed) → node.WellFormed ∧ outer <:+ opened.tail
  | [], _, _, _, h, _, _, _, _ => by cases h
  | o :: opened, inner, node, outer, h, hs, htail, hhead, hinner => by
      have hraw : isRawText o.element.name = true → ∀ n ∈ inner ++ o.children, n.IsText := by
        intro hr
        rcases hhead o rfl with hm | ht
        · exact absurd hr hm.not_raw
        · exact ht
      have hclose := fun e => ((hs o List.mem_cons_self).append hinner).close hraw e
      rw [closeNamed] at h
      split at h
      · cases h
        exact ⟨hclose true, List.suffix_rfl⟩
      · have hmarkup : ∀ o' ∈ opened, o'.IsMarkup := htail
        obtain ⟨hnode, hsuffix⟩ := closeNamed_sound h
          (fun o' ho' => hs o' (List.mem_cons_of_mem o ho'))
          (fun o' ho' => hmarkup o' (List.mem_of_mem_tail ho'))
          (fun o' ho' => Or.inl (hmarkup o' (List.mem_of_mem_head? ho')))
          (List.forall_mem_singleton.2 (hclose false))
        exact ⟨hnode, hsuffix.trans (List.tail_suffix opened)⟩

/-- What the nodes of ended elements have, all nodes have that are left when all elements end. -/
theorem closeAll_forall {P : Node → Prop} {Q : OpenElement → Prop}
    (hclose : ∀ {o : OpenElement} {inner : List Node}, Q o → (∀ n ∈ inner, P n) →
      P (OpenElement.close { o with children := inner ++ o.children } false)) :
    ∀ {opened : List OpenElement} {inner : List Node}, (∀ o ∈ opened, Q o) → (∀ n ∈ inner, P n) →
      ∀ n ∈ closeAll inner opened, P n
  | [], _, _, hinner => hinner
  | o :: opened, inner, hq, hinner => by
      obtain ⟨ho, hopened⟩ := List.forall_mem_cons.1 hq
      rw [closeAll]
      exact closeAll_forall hclose hopened (List.forall_mem_singleton.2 (hclose ho hinner))

theorem closeAll_wellFormed {opened : List OpenElement} {inner : List Node}
    (hs : ∀ o ∈ opened, o.Sound) (hm : ∀ o ∈ opened, o.IsMarkup)
    (hinner : ∀ n ∈ inner, n.WellFormed) :
    ∀ n ∈ closeAll inner opened, n.WellFormed := by
  refine closeAll_forall (Q := fun o => o.Sound ∧ o.IsMarkup) ?_ (fun o ho => ⟨hs o ho, hm o ho⟩)
    hinner
  rintro o inner ⟨hso, hmo⟩ hinner
  exact (hso.append hinner).close (fun hr => absurd hr hmo.not_raw) false

theorem markVoidEnd_wellFormed {name : String} {nodes : List Node}
    (h : ∀ n ∈ nodes, n.WellFormed) : ∀ n ∈ markVoidEnd name nodes, n.WellFormed := by
  unfold markVoidEnd
  split
  · rename_i e children rest
    split
    · rename_i hc
      obtain ⟨⟨hfits, hchildren⟩, hrest⟩ := List.forall_mem_cons.1 h
      refine List.forall_mem_cons.2 ⟨⟨⟨fun hself => ?_, hfits.raw⟩, hchildren⟩, hrest⟩
      simp only [Bool.and_eq_true, Bool.not_eq_true'] at hc
      exact absurd hself (by rw [hc.2]; exact Bool.false_ne_true)
    · exact h
  · exact h

namespace Builder

variable {b b' : Builder} {mode mode' : Mode} {cs rest : List Char}

/-- Where a raw text element cannot be open, none is. -/
theorem Sound.isMarkup (h : b.Sound mode cs) (hno : ∀ o, ¬ RawOpen mode cs o) :
    ∀ o ∈ b.opened, o.IsMarkup := by
  have houter := h.outer
  have hraw := h.raw
  cases hopened : b.opened with
  | nil => simp
  | cons o outer =>
      rw [hopened] at houter hraw
      exact List.forall_mem_cons.2 ⟨(hraw o rfl).resolve_right (hno o), houter⟩

theorem Sound.of_isMarkup (htag : mode.Agrees b.tag) (hfinished : ∀ n ∈ b.finished, n.WellFormed)
    (hopened : ∀ o ∈ b.opened, o.Sound) (hm : ∀ o ∈ b.opened, o.IsMarkup) : b.Sound mode cs where
  tag := htag
  finished := hfinished
  opened := hopened
  outer := fun o ho => hm o (List.mem_of_mem_tail ho)
  raw := fun o ho => Or.inl (hm o (List.mem_of_mem_head? ho))

/-- So it is at the beginning of a text. -/
theorem Sound.start (cs : List Char) : Builder.Sound .content cs {} :=
  .of_isMarkup rfl (fun _ hn => nomatch hn) (fun _ ho => nomatch ho) fun _ ho => nomatch ho

/-- A change to the children at the place of the builder. -/
theorem Sound.modifyChildren {change : List Node → List Node} (h : b.Sound mode cs)
    (htag : mode'.Agrees b.tag)
    (hchange : ∀ ns, (∀ n ∈ ns, n.WellFormed) → ∀ n ∈ change ns, n.WellFormed)
    (hraw : ∀ o ∈ b.opened.head?,
      o.IsMarkup ∨ RawOpen mode' rest { o with children := change o.children }) :
    (b.modifyChildren change).Sound mode' rest := by
  obtain ⟨finished, opened, tag⟩ := b
  cases opened with
  | nil =>
      exact .of_isMarkup htag (hchange _ h.finished) (fun _ ho => nomatch ho) fun _ ho => nomatch ho
  | cons o outer =>
      obtain ⟨ho, houter⟩ := List.forall_mem_cons.1 h.opened
      refine ⟨htag, h.finished, List.forall_mem_cons.2 ⟨⟨ho.opened, hchange _ ho.children⟩, houter⟩,
        h.outer, ?_⟩
      rintro o' ⟨⟩
      exact hraw o rfl

/-- A node added where no raw text element is open. -/
theorem Sound.append {node : Node} (h : b.Sound mode cs) (htag : mode'.Agrees b.tag)
    (hm : ∀ o ∈ b.opened, o.IsMarkup) (hnode : node.WellFormed) :
    (b.append node).Sound mode' rest :=
  h.modifyChildren htag (fun _ hns => List.forall_mem_cons.2 ⟨hnode, hns⟩)
    fun o ho => Or.inl (hm o (List.mem_of_mem_head? ho))

/-- What stands at the place of the reader when a raw text element is open. -/
theorem not_rawOpen_content (h : ∀ t, cs ≠ '<' :: '/' :: t) (o : OpenElement) :
    ¬ RawOpen .content cs o := by
  rintro ⟨-, -, hend⟩
  obtain ⟨x, y, rfl, -⟩ := endsRawText_iff.1 hend
  exact h _ rfl

theorem not_rawOpen_tag {opened : Nat} {element : String} (o : OpenElement) :
    ¬ RawOpen (.tag opened element) cs o := fun h => h.2

/-- A start tag ends; the element is opened unless it cannot have children. -/
theorem Sound.enter {opened : Nat} {tag : TagSoFar} {selfClosed : Bool}
    (h : b.Sound (.tag opened tag.name) cs) (hmode : mode'.Agrees none)
    (hraw : selfClosed = false → isRawText tag.name = true → mode' = .raw opened tag.name) :
    ({ b with tag := none }.enter (tag.element selfClosed)).Sound mode' rest := by
  have hm := h.isMarkup not_rawOpen_tag
  have hb : Builder.Sound .content cs { b with tag := none } :=
    .of_isMarkup rfl h.finished h.opened hm
  have hnil : Node.WellFormedAll [] := trivial
  rw [Builder.enter]
  split
  · rename_i hleaf
    refine hb.append hmode hm ⟨⟨fun _ => ⟨rfl, rfl⟩, fun _ n hn => nomatch hn⟩, hnil⟩
  · rename_i hleaf
    simp only [Bool.or_eq_true, not_or, Bool.not_eq_true] at hleaf
    refine ⟨hmode, h.finished, List.forall_mem_cons.2 ⟨⟨hleaf.1, fun n hn => nomatch hn⟩, h.opened⟩,
      hm, ?_⟩
    rintro o ⟨⟩
    cases hr : isRawText tag.name with
    | false => exact Or.inl hr
    | true =>
        refine Or.inr ⟨hr, ?_⟩
        rw [hraw hleaf.1 hr]
        exact ⟨rfl, rfl⟩

/-- A raw text element that is open at an end tag has its body ended by the tag. -/
theorem Sound.endsBody {inner rest : List Char}
    (h : b.Sound .content ('<' :: '/' :: (inner ++ '>' :: rest))) (hinner : '>' ∉ inner) :
    ∀ o ∈ b.opened.head?, o.IsMarkup ∨ isRawText o.element.name = true ∧
      EndsBody o.element.name.toList (closingName (String.ofList inner)).toList := by
  intro o ho
  refine (h.raw o ho).imp_right ?_
  rintro ⟨hr, -, hend⟩
  have hbody := closeTag_of_endsRawText hr hend (cut?_startsWith.2 ⟨rest, rfl, rfl, hinner⟩)
  exact ⟨hr, EndsBody.closingName hr (by simpa using hbody)⟩

/-- An end tag is taken: a void element gets it, or elements are closed, among them a raw text
element if one is open. -/
theorem Sound.closeTag {config : Config} {inner rest : List Char} {span : Span}
    (h : b.Sound .content ('<' :: '/' :: (inner ++ '>' :: rest))) (hinner : '>' ∉ inner)
    (hadd : Adds config b (.closeTag (String.ofList inner) span) b') : b'.Sound .content rest := by
  have hvoid : ∀ o ∈ b.opened.head?, isVoid (closingName (String.ofList inner)) = true →
      o.IsMarkup := by
    intro o ho hv
    rcases h.endsBody hinner o ho with hm | ⟨hr, hclosing⟩
    · exact hm
    · rw [hclosing.not_isVoid hr] at hv
      cases hv
  cases hadd with
  | closeVoid hcheck hv =>
      exact h.modifyChildren h.tag (fun ns hns => markVoidEnd_wellFormed hns)
        fun o ho => Or.inl (hvoid o ho hv)
  | @closeNamed _ _ node outer hcheck hv hclose =>
      obtain ⟨hnode, hsuffix⟩ := closeNamed_sound hclose h.opened h.outer (fun o ho => by
        rcases h.raw o ho with hm | ⟨-, htext, -⟩
        · exact Or.inl hm
        · exact Or.inr htext) (fun n hn => nomatch hn)
      have hmem : ∀ o ∈ outer, o ∈ b.opened.tail := fun o ho => hsuffix.subset ho
      have hm : ∀ o ∈ outer, o.IsMarkup := fun o ho => h.outer o (hmem o ho)
      have hb : Builder.Sound .content [] { b with opened := outer } :=
        .of_isMarkup h.tag h.finished (fun o ho => h.opened o (List.mem_of_mem_tail (hmem o ho))) hm
      exact hb.append h.tag hm hnode
  | stray htag hpart => cases hpart

/-- Each token preserves this. -/
theorem Sound.add {config : Config} {pos : Nat} {token : Token}
    (hread : Reads pos mode cs token mode' rest) (h : b.Sound mode cs)
    (hadd : Builder.add config b token = .ok b') : b'.Sound mode' rest := by
  replace hadd := add_eq_ok.1 hadd
  cases hread with
  | comment hclear =>
      have hm := h.isMarkup (not_rawOpen_content fun t ht => by cases ht)
      cases hadd with
      | comment => exact h.append h.tag hm trivial
      | stray htag hpart => cases hpart
  | closeTag hinner => exact h.closeTag hinner hadd
  | @openTag c name rest hc hname hrest =>
      have hm := h.isMarkup (not_rawOpen_content fun t ht => by
        cases ht
        exact absurd hc (by decide))
      cases hadd with
      | openTag hcheck => exact .of_isMarkup ⟨_, rfl, rfl⟩ h.finished h.opened hm
      | stray htag hpart => cases hpart
  | @text c more rest hclear hrest =>
      have hm := h.isMarkup (not_rawOpen_content fun t ht => by
        have hhead := hclear.1
        rw [ht] at hhead
        cases hhead)
      cases hadd with
      | text => exact h.append h.tag hm trivial
      | stray htag hpart => cases hpart
  | tagSelfClose hb =>
      obtain ⟨tag, htag, rfl⟩ := h.tag
      cases hadd with
      | tagSelfClose htag' hmissing =>
          cases htag.symm.trans htag'
          exact h.enter rfl fun hself => nomatch hself
      | stray hnone hpart => rw [hnone] at htag; cases htag
  | tagEnd hb =>
      obtain ⟨tag, htag, rfl⟩ := h.tag
      cases hadd with
      | tagEnd htag' hmissing =>
          cases htag.symm.trans htag'
          refine h.enter ?_ fun _ hr => by rw [if_pos hr]
          split <;> rfl
      | stray hnone hpart => rw [hnone] at htag; cases htag
  | attributeValue hb hv =>
      obtain ⟨tag, htag, rfl⟩ := h.tag
      have hm := h.isMarkup not_rawOpen_tag
      cases hadd with
      | attributeValue htag' hvalue =>
          cases htag.symm.trans htag'
          obtain ⟨-, last, earlier, -, rfl⟩ := addValue?_eq_some.1 hvalue
          exact .of_isMarkup ⟨_, rfl, rfl⟩ h.finished h.opened hm
      | stray hnone hpart => rw [hnone] at htag; cases htag
  | attributeName hb hc hclear hrest =>
      obtain ⟨tag, htag, rfl⟩ := h.tag
      have hm := h.isMarkup not_rawOpen_tag
      cases hadd with
      | attributeName htag' =>
          cases htag.symm.trans htag'
          exact .of_isMarkup ⟨_, rfl, rfl⟩ h.finished h.opened hm
      | stray hnone hpart => rw [hnone] at htag; cases htag
  | @rawText opened element body rest hclear hend =>
      have hrest : ∀ o, RawOpen (.raw opened element) (body ++ rest) o → ∀ ns : List Node,
          (∀ n ∈ ns, n.IsText) → RawOpen .content rest { o with children := ns ++ o.children } := by
        rintro o ⟨hr, rfl, hchildren⟩ ns hns
        refine ⟨hr, ?_, hend⟩
        rw [hchildren, List.append_nil]
        exact hns
      cases hadd with
      | rawEmpty =>
          exact ⟨h.tag, h.finished, h.opened, h.outer, fun o ho =>
            (h.raw o ho).imp_right fun hr => hrest o hr [] fun n hn => nomatch hn⟩
      | raw span hne =>
          refine h.modifyChildren h.tag (fun ns hns => List.forall_mem_cons.2 ⟨trivial, hns⟩) ?_
          intro o ho
          exact (h.raw o ho).imp_right fun hr =>
            hrest o hr [.text _ _] (List.forall_mem_singleton.2 trivial)
      | stray htag hpart => cases hpart

end Builder

/-- The elements of a document fit their children. -/
theorem Document.read_wellFormed {config : Config} {source : Source} {document : Document}
    (h : Document.read config source = .ok document) :
    Node.WellFormedAll document.children := by
  obtain ⟨tokens, b, hreads, hadd, hfinish⟩ := Document.read_ok.1 h
  have hsound := hreads.preserves (I := Builder.Sound) Builder.Sound.add (.start source.chars) hadd
  have hm := hsound.isMarkup (Builder.not_rawOpen_content (by simp))
  rw [Builder.finish_ok hfinish, Node.wellFormedAll_iff]
  intro n hn
  rcases List.mem_append.1 (List.mem_reverse.1 hn) with hn | hn
  · exact closeAll_wellFormed hsound.opened hm (by simp) n hn
  · exact hsound.finished n hn

end TypedTemplate.Markup
