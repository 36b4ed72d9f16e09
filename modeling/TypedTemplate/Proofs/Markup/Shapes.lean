/-
# `TypedTemplate.Proofs.Markup.Shapes` — the shape of every node that was read

Whatever a template is and however it is configured, the nodes of its tree have a certain shape
(`Node.Shaped`): names are of small letters, a leaf has no children, every expression has a
text, and the delimiters of a comment or of a raw text element do not occur in it.

Most of this is settled when a node is added; that the text, the quotes and the place of a value
go together is settled when the name or the value of its attribute is (`TagSoFar.Shaped`).  That
a raw text element has an end tag is not: three places have to agree on what that is.  The
reader looks for `</` and the element's name, in capitals or not, with `>` or blank space after
it; the end tag then runs up to the next `>`, whatever stands there; and its name must have no
capitals and be the name of an open element.  The last settles it, since a name has no blank
space in it and no capitals either, so the tag is the element's own (`eq_of_endsBody`).

`Builder.Shaped` is what holds of the tree being built at every token; it is proved beside
`Builder.Sound`, which knows where a raw text element can be open.
-/
import TypedTemplate.Proofs.Markup.Legible
import TypedTemplate.Proofs.Markup.Tree
import TypedTemplate.Proofs.Markup.WellFormed

namespace TypedTemplate

theorem Text.isUppercase_of_isUpper {c : Char} (h : c.isUpper = true) : isUppercase c = true := by
  have hrange : 65 ≤ c.toNat ∧ c.toNat ≤ 90 := of_decide_eq_true h
  rw [isUppercase, inRanges, show uppercaseRanges = (0x41, 0x5a) :: uppercaseRanges.tail from rfl,
    Ranges.holds, if_neg (by omega), decide_eq_true hrange.2]
  rfl

/-- What is no capital letter at all is not changed to a small one. -/
theorem Text.toLower_of_not_isUppercase {c : Char} (h : isUppercase c = false) : c.toLower = c := by
  unfold Char.toLower
  split
  · rename_i hu
    rw [isUppercase_of_isUpper (decide_eq_true hu)] at h
    cases h
  · rfl

namespace Markup

open Text

/-! ## Shapes -/

/-- A small letter, and then small letters, digits, `-`, `_` and `:`. -/
def IsTagName (name : String) : Prop :=
  ∃ c cs, name.toList = c :: cs ∧ c.isLower = true ∧
    ∀ d ∈ cs, d.isLower = true ∨ d.isDigit = true ∨ d = '-' ∨ d = '_' ∨ d = ':'

namespace Attribute

/-- An attribute is a bare name, or it has a value and a place for it. -/
structure Shaped (a : Attribute) : Prop where
  bare : a.text? = none ↔ a.quote = .bare
  span : a.quote = .bare ↔ a.valueSpan? = none
  /-- An expression has a text. -/
  dynamic : a.dynamic = true → a.text? ≠ none

/-- The text, the way of writing and the place are those of one value, or there are none. -/
structure Paired (a : Attribute) : Prop where
  text : a.text? = a.value.map (·.text)
  quote : a.quote = a.value.elim .bare fun value => .valued value.quote
  span : a.valueSpan? = a.value.map (·.span)

theorem paired_ofName (name : String) (dynamic : Bool) (span : Span) :
    (ofName name dynamic span).Paired := ⟨rfl, rfl, rfl⟩

theorem paired_setValue (a : Attribute) (value : AttributeValue) : (a.setValue value).Paired :=
  ⟨rfl, rfl, rfl⟩

theorem Paired.shaped {a : Attribute} (h : a.Paired)
    (hdynamic : a.dynamic = true → a.text? ≠ none) : a.Shaped where
  bare := by
    rw [h.text, h.quote]
    cases a.value <;> simp
  span := by
    rw [h.quote, h.span]
    cases a.value <;> simp
  dynamic := hdynamic

end Attribute

/-- A comment's delimiters, and the first place after the opening one where the closing one stands
is the end. -/
def IsComment (content : String) : Prop :=
  ∃ body, content.toList = ['<', '!', '-', '-'] ++ body ++ ['-', '-', '>'] ∧
    ∀ before after, body ++ ['-', '-', '>'] = before ++ ['-', '-', '>'] ++ after → after = []

/-- Nowhere in the text there is `</`, the name in small letters or capitals, and `>` or blank
space. -/
def LacksEndTag (name content : String) : Prop :=
  ∀ before word c after, content.toList = before ++ '<' :: '/' :: (word ++ c :: after) →
    word.map Char.toLower = name.toList → c ≠ '>' ∧ isAsciiBlank c = false

/-- Nothing, or one text without an end tag. -/
def IsBody (name : String) (children : List Node) : Prop :=
  children = [] ∨ ∃ content span, children = [.text content span] ∧ LacksEndTag name content

/-- The shape of an element with its children. -/
structure Element.Shaped (e : Element) (children : List Node) : Prop where
  name : IsTagName e.name
  leaf : isVoid e.name = true ∨ e.selfClosed = true → children = []
  ends : ¬ (e.selfClosed = true ∧ e.hasEndTag = true)
  attributes : ∀ a ∈ e.attributes, a.Shaped
  raw : isRawText e.name = true → e.selfClosed = false → e.hasEndTag = true ∧ IsBody e.name children

/-- The shape of a node, whatever is below it. -/
def Node.Shaped : Node → Prop
  | .text content _ => content ≠ ""
  | .comment content _ => IsComment content
  | .element e children => e.Shaped children

/-! ## Nodes with all that is below them -/

mutual

/-- The node and all nodes below it have a property. -/
def Node.Throughout (P : Node → Prop) : Node → Prop
  | .text content span => P (.text content span)
  | .comment content span => P (.comment content span)
  | .element e children => P (.element e children) ∧ Node.ThroughoutAll P children
termination_by structural node => node

/-- Some nodes and all nodes below them have a property. -/
def Node.ThroughoutAll (P : Node → Prop) : List Node → Prop
  | [] => True
  | node :: rest => node.Throughout P ∧ Node.ThroughoutAll P rest
termination_by structural nodes => nodes

end

theorem Node.throughoutAll_iff {P : Node → Prop} {nodes : List Node} :
    Node.ThroughoutAll P nodes ↔ ∀ n ∈ nodes, n.Throughout P := by
  induction nodes with
  | nil => simp [Node.ThroughoutAll]
  | cons n nodes ih => simp [Node.ThroughoutAll, ih]

mutual

theorem Node.Throughout.walk {P : Node → Prop} : ∀ {node : Node} {depth : Nat},
    node.Throughout P → ∀ below ∈ node.walk depth, P below.2
  | .text _ _, _, h => List.forall_mem_singleton.2 h
  | .comment _ _, _, h => List.forall_mem_singleton.2 h
  | .element _ _, _, h => List.forall_mem_cons.2 ⟨h.1, Node.ThroughoutAll.walk h.2⟩

theorem Node.ThroughoutAll.walk {P : Node → Prop} : ∀ {nodes : List Node} {depth : Nat},
    Node.ThroughoutAll P nodes → ∀ below ∈ Node.walkAll depth nodes, P below.2
  | [], _, _ => List.forall_mem_nil _
  | _ :: _, _, h => List.forall_mem_append.2 ⟨Node.Throughout.walk h.1, Node.ThroughoutAll.walk h.2⟩

end

/-! ## Names -/

/-- What the reader takes for a name and the check lets pass is one. -/
theorem isTagName_of_checked {c : Char} {name : List Char} {span : Span} (hc : c.isAlpha = true)
    (hname : ∀ d ∈ name, isTagNameChar d = true)
    (hcheck : checkTagName (String.ofList (c :: name)) span = .ok ()) :
    IsTagName (String.ofList (c :: name)) := by
  obtain ⟨-, hlower⟩ := checkTagName_ok.1 hcheck
  rw [String.toList_ofList] at hlower
  have hletter : ∀ d ∈ c :: name, d.isAlpha = true → d.isLower = true := by
    intro d hd halpha
    refine (Bool.or_eq_true_iff.1 halpha).resolve_left fun hupper => ?_
    have hcapital := isUppercase_of_isUpper hupper
    rw [hlower d hd] at hcapital
    cases hcapital
  refine ⟨c, name, String.toList_ofList, hletter c List.mem_cons_self hc, ?_⟩
  intro d hd
  have hchar := hname d hd
  simp only [isTagNameChar, Char.isAlphanum, Bool.or_eq_true, beq_iff_eq] at hchar
  rcases hchar with (((halpha | hdigit) | rfl) | rfl) | rfl
  · exact Or.inl (hletter d (List.mem_cons_of_mem c hd) halpha)
  · exact Or.inr (Or.inl hdigit)
  · simp
  · simp
  · simp

namespace IsTagName

variable {name : String}

theorem not_blank (h : IsTagName name) : ∀ d ∈ name.toList, isAsciiBlank d = false := by
  obtain ⟨c, cs, hname, hc, hcs⟩ := h
  rw [hname]
  have hall : ∀ d ∈ c :: cs,
      d.isLower = true ∨ d.isDigit = true ∨ d = '-' ∨ d = '_' ∨ d = ':' :=
    List.forall_mem_cons.2 ⟨Or.inl hc, hcs⟩
  intro d hd
  have hd := hall d hd
  rw [Bool.eq_false_iff]
  intro hblank
  simp only [isAsciiBlank, Bool.or_eq_true, beq_iff_eq] at hblank
  rcases hblank with (((rfl | rfl) | rfl) | rfl) | rfl <;> revert hd <;> decide

end IsTagName

theorem isVoid_of_isRawText {name : String} (h : isRawText name = true) : isVoid name = false := by
  have hall : (rawTextElements.all fun name => !isVoid name) = true := by decide
  simp only [List.all_eq_true, Bool.not_eq_true'] at hall
  exact hall name (by simpa [isRawText] using h)

/-- If an end tag ends the body of a raw text element, and its name is without capitals and blank
space, then it is the element's. -/
theorem eq_of_endsBody {name closing : String} {span : Span} (hclosing : IsTagName closing)
    (hcheck : checkTagName closing span = .ok ())
    (h : EndsBody name.toList closing.toList) : closing = name := by
  obtain ⟨word, more, heq, hword, hmore⟩ := h
  have hnil : more = [] := by
    refine hmore.resolve_right fun hblank => ?_
    cases more with
    | nil => cases hblank
    | cons c more =>
        have hc := hclosing.not_blank c (by simp [heq])
        rw [startsWhere, hc] at hblank
        cases hblank
  rw [hnil, List.append_nil] at heq
  have hlower : ∀ c ∈ word, c.toLower = c := by
    intro c hc
    exact toLower_of_not_isUppercase ((checkTagName_ok.1 hcheck).2 c (heq ▸ hc))
  rw [← String.toList_inj, heq, ← hword, List.map_congr_left hlower, List.map_id']

/-! ## What the tokens give -/

theorem isComment_of_clear {body rest : List Char}
    (h : Clear endsComment body ('-' :: '-' :: '>' :: rest)) :
    IsComment (String.ofList ('<' :: '!' :: '-' :: '-' :: (body ++ ['-', '-', '>']))) := by
  refine ⟨body, by simp, ?_⟩
  intro before after heq
  rw [List.append_assoc] at heq
  obtain ⟨more, rfl⟩ := (clear_comment h).prefix_of heq (endsComment_iff.2 ⟨after, rfl⟩)
  rw [List.append_assoc, List.append_cancel_left_eq] at heq
  have hlength := congrArg List.length heq
  simp only [List.length_append, List.length_cons, List.length_nil] at hlength
  exact List.eq_nil_of_length_eq_zero (by omega)

theorem lacksEndTag_of_clear {name : String} {body rest : List Char}
    (h : Clear (endsRawText name.toList) body rest) : LacksEndTag name (String.ofList body) := by
  intro before word c after heq hword
  rw [String.toList_ofList] at heq
  -- if an end tag stood there the body would have ended before it
  have hnot : ¬ (c == '>' || isAsciiBlank c) = true := by
    intro hc
    have hends : endsRawText name.toList ('<' :: '/' :: (word ++ c :: (after ++ rest))) = true :=
      endsRawText_iff.2 ⟨word, c :: (after ++ rest), rfl, hword, hc⟩
    obtain ⟨more, hmore⟩ := h.prefix_of (x := before) (by simp [heq]) hends
    have hlength := congrArg List.length hmore
    rw [heq] at hlength
    simp only [List.length_append, List.length_cons] at hlength
    omega
  rw [Bool.not_eq_true, Bool.or_eq_false_iff, beq_eq_false_iff_ne] at hnot
  exact hnot

/-! ## Elements that are open -/

/-- The shape of an open element; what is in it has its shape already. -/
structure OpenElement.Shaped (o : OpenElement) : Prop where
  name : IsTagName o.element.name
  opened : o.element.selfClosed = false
  void : isVoid o.element.name = false
  attributes : ∀ a ∈ o.element.attributes, a.Shaped
  children : ∀ n ∈ o.children, n.Throughout Node.Shaped
  raw : isRawText o.element.name = true → IsBody o.element.name o.children

namespace OpenElement.Shaped

variable {o : OpenElement}

/-- A body is no longer than one text, so it does not matter in which order it is held. -/
theorem isBody_reverse {name : String} {children : List Node} (h : IsBody name children) :
    IsBody name children.reverse := by
  rcases h with rfl | ⟨content, span, rfl, hlacks⟩
  · exact Or.inl rfl
  · exact Or.inr ⟨content, span, rfl, hlacks⟩

theorem close (h : o.Shaped) {hasEndTag : Bool}
    (hraw : isRawText o.element.name = true → hasEndTag = true) :
    (o.close hasEndTag).Throughout Node.Shaped := by
  have hopened : ¬ o.element.selfClosed = true := Bool.eq_false_iff.1 h.opened
  refine ⟨⟨h.name, ?_, ?_, h.attributes, ?_⟩, ?_⟩
  · rintro (hvoid | hself)
    · exact absurd hvoid (Bool.eq_false_iff.1 h.void)
    · exact absurd hself hopened
  · rintro ⟨hself, -⟩
    exact hopened hself
  · intro hr _
    exact ⟨hraw hr, isBody_reverse (h.raw hr)⟩
  · rw [Node.throughoutAll_iff]
    intro n hn
    exact h.children n (List.mem_reverse.1 hn)

/-- Nodes are added where markup is read. -/
theorem append (h : o.Shaped) (hm : o.IsMarkup) {inner : List Node}
    (hinner : ∀ n ∈ inner, n.Throughout Node.Shaped) :
    OpenElement.Shaped { o with children := inner ++ o.children } where
  name := h.name
  opened := h.opened
  void := h.void
  attributes := h.attributes
  children := List.forall_mem_append.2 ⟨hinner, h.children⟩
  raw hr := absurd hr hm.not_raw

end OpenElement.Shaped

/-- Elements that end without an end tag are not raw text elements. -/
theorem closeAll_shaped {opened : List OpenElement} {inner : List Node}
    (hs : ∀ o ∈ opened, o.Shaped) (hm : ∀ o ∈ opened, o.IsMarkup)
    (hinner : ∀ n ∈ inner, n.Throughout Node.Shaped) :
    ∀ n ∈ closeAll inner opened, n.Throughout Node.Shaped := by
  refine closeAll_forall (Q := fun o => o.Shaped ∧ o.IsMarkup) ?_ (fun o ho => ⟨hs o ho, hm o ho⟩)
    hinner
  rintro o inner ⟨hso, hmo⟩ hinner
  exact (hso.append hmo hinner).close fun hr => absurd hr hmo.not_raw

theorem markVoidEnd_shaped {name : String} {nodes : List Node}
    (h : ∀ n ∈ nodes, n.Throughout Node.Shaped) :
    ∀ n ∈ markVoidEnd name nodes, n.Throughout Node.Shaped := by
  unfold markVoidEnd
  split
  · rename_i e children rest
    split
    · rename_i hc
      rw [Bool.and_eq_true, Bool.not_eq_true'] at hc
      obtain ⟨⟨hshaped, hchildren⟩, hrest⟩ := List.forall_mem_cons.1 h
      refine List.forall_mem_cons.2 ⟨⟨⟨hshaped.name, hshaped.leaf, ?_, hshaped.attributes, ?_⟩,
        hchildren⟩, hrest⟩
      · rintro ⟨hself, -⟩
        exact absurd hself (Bool.eq_false_iff.1 hc.2)
      · intro hr hself
        exact ⟨rfl, (hshaped.raw hr hself).2⟩
    · exact h
  · exact h

/-! ## The builder at a token -/

/-- What holds of a start tag at every token in it. -/
structure TagSoFar.Shaped (tag : TagSoFar) : Prop where
  name : IsTagName tag.name
  attributes : ∀ a ∈ tag.attributes, a.Paired

namespace TagSoFar.Shaped

variable {tag tag' : TagSoFar}

/-- A name comes without any part of a value. -/
theorem addName (h : tag.Shaped) (dynamic : Bool) (name : String) (span : Span) :
    (tag.addName dynamic name span).Shaped where
  name := h.name
  attributes := List.forall_mem_cons.2 ⟨Attribute.paired_ofName name dynamic span, h.attributes⟩

/-- A value comes with all its parts. -/
theorem addValue? {value : AttributeValue} (h : tag.Shaped)
    (hvalue : tag.addValue? value = some tag') : tag'.Shaped := by
  obtain ⟨-, last, earlier, hattributes, rfl⟩ := addValue?_eq_some.1 hvalue
  have hearlier : ∀ a ∈ earlier, a.Paired := fun a ha =>
    h.attributes a (hattributes ▸ List.mem_cons_of_mem last ha)
  exact ⟨h.name, List.forall_mem_cons.2 ⟨last.paired_setValue value, hearlier⟩⟩

/-- The attributes of a tag that may end have their shape. -/
theorem element_attributes (h : tag.Shaped) (hmissing : tag.missingValue? = none)
    (selfClosed : Bool) : ∀ a ∈ (tag.element selfClosed).attributes, a.Shaped := by
  intro a ha
  refine (h.attributes a (List.mem_reverse.1 ha)).shaped fun hdynamic hnone => ?_
  have hfound := List.find?_eq_none.1 hmissing a ha
  simp [hdynamic, hnone] at hfound

end TagSoFar.Shaped

/-- What holds of the tree that is being built at every token. -/
structure Builder.Shaped (b : Builder) : Prop where
  tag : ∀ tag ∈ b.tag, tag.Shaped
  finished : ∀ n ∈ b.finished, n.Throughout Node.Shaped
  opened : ∀ o ∈ b.opened, o.Shaped

namespace Builder.Shaped

variable {b b' : Builder} {mode mode' : Mode} {cs rest : List Char} {config : Config}

theorem start : Builder.Shaped {} := by
  refine ⟨?_, List.forall_mem_nil _, List.forall_mem_nil _⟩
  rintro _ ⟨⟩

/-- A start tag is begun or goes on. -/
theorem withTag {tag : TagSoFar} (h : b.Shaped) (htag : tag.Shaped) :
    Builder.Shaped { b with tag := some tag } := by
  refine ⟨?_, h.finished, h.opened⟩
  rintro _ ⟨⟩
  exact htag

/-- A change to the children at the place of the builder. -/
theorem modifyChildren {change : List Node → List Node} (h : b.Shaped)
    (hchange : ∀ ns, (∀ n ∈ ns, n.Throughout Node.Shaped) →
      ∀ n ∈ change ns, n.Throughout Node.Shaped)
    (hraw : ∀ o ∈ b.opened.head?, isRawText o.element.name = true →
      IsBody o.element.name (change o.children)) : (b.modifyChildren change).Shaped := by
  obtain ⟨finished, opened, tag⟩ := b
  cases opened with
  | nil => exact ⟨h.tag, hchange _ h.finished, List.forall_mem_nil _⟩
  | cons o outer =>
      obtain ⟨ho, houter⟩ := List.forall_mem_cons.1 h.opened
      exact ⟨h.tag, h.finished, List.forall_mem_cons.2 ⟨⟨ho.name, ho.opened, ho.void, ho.attributes,
        hchange _ ho.children, hraw o rfl⟩, houter⟩⟩

/-- A node added where no raw text element is open. -/
theorem append {node : Node} (h : b.Shaped) (hm : ∀ o ∈ b.opened, o.IsMarkup)
    (hnode : node.Throughout Node.Shaped) : (b.append node).Shaped := by
  refine h.modifyChildren (fun _ hns => List.forall_mem_cons.2 ⟨hnode, hns⟩) ?_
  intro o ho hr
  exact absurd hr (hm o (List.mem_of_mem_head? ho)).not_raw

/-- A start tag ends; its expressions all have a text. -/
theorem enter {tag : TagSoFar} {selfClosed : Bool} (h : b.Shaped)
    (hm : ∀ o ∈ b.opened, o.IsMarkup) (htag : b.tag = some tag)
    (hmissing : tag.missingValue? = none) :
    ({ b with tag := none }.enter (tag.element selfClosed)).Shaped := by
  have hname : IsTagName tag.name := (h.tag tag htag).name
  have hattributes := (h.tag tag htag).element_attributes hmissing selfClosed
  have hb : Builder.Shaped { b with tag := none } := by
    refine ⟨?_, h.finished, h.opened⟩
    rintro _ ⟨⟩
  rw [Builder.enter]
  split
  · rename_i hleaf
    refine hb.append hm ⟨⟨hname, fun _ => rfl, ?_, hattributes, ?_⟩, trivial⟩
    · rintro ⟨-, hend⟩
      exact Bool.false_ne_true hend
    · intro hr hself
      rw [hself, isVoid_of_isRawText hr] at hleaf
      cases hleaf
  · rename_i hleaf
    rw [Bool.or_eq_true, not_or, Bool.not_eq_true, Bool.not_eq_true] at hleaf
    exact ⟨hb.tag, h.finished, List.forall_mem_cons.2 ⟨⟨hname, hleaf.1, hleaf.2, hattributes,
      List.forall_mem_nil _, fun _ => Or.inl rfl⟩, h.opened⟩⟩

/-- An end tag is taken.  If a raw text element is open, the tag is the element's own. -/
theorem closeTag {inner : List Char} {span : Span}
    (hsound : b.Sound .content ('<' :: '/' :: (inner ++ '>' :: rest))) (hinner : '>' ∉ inner)
    (h : b.Shaped) (hadd : Adds config b (.closeTag (String.ofList inner) span) b') :
    b'.Shaped := by
  have hends := hsound.endsBody hinner
  cases hadd with
  | closeVoid hcheck hvoid =>
      refine h.modifyChildren (fun ns hns => markVoidEnd_shaped hns) ?_
      intro o ho hr
      rcases hends o ho with hm | ⟨-, hbody⟩
      · exact absurd hr hm.not_raw
      · rw [hbody.not_isVoid hr] at hvoid
        cases hvoid
  | @closeNamed _ _ node outer hcheck hvoid hclose =>
      obtain ⟨since, o, hopened, hname, hsince, rfl⟩ := closeNamed_eq_some hclose
      have htail : ∀ o' ∈ b.opened.tail, o'.IsMarkup := hsound.outer
      have hshaped : ∀ o' ∈ b.opened, o'.Shaped := h.opened
      rw [hopened] at htail hshaped hends
      obtain ⟨hsinceShaped, hrest⟩ := List.forall_mem_append.1 hshaped
      obtain ⟨ho, houter⟩ := List.forall_mem_cons.1 hrest
      have hclosed : (∀ o' ∈ outer, o'.IsMarkup) ∧ (OpenElement.close
          { o with children := closeAll [] since ++ o.children } true).Throughout Node.Shaped := by
        cases since with
        | nil => exact ⟨htail, ho.close fun _ => rfl⟩
        | cons s since =>
            -- a raw text element opened last would have the name of the tag
            have hs : s.IsMarkup := by
              refine (hends s rfl).resolve_right ?_
              rintro ⟨-, hbody⟩
              exact hsince s List.mem_cons_self (eq_of_endsBody (hname ▸ ho.name) hcheck hbody).symm
            obtain ⟨hsinceMarkup, hrestMarkup⟩ := List.forall_mem_append.1 htail
            obtain ⟨hoMarkup, houterMarkup⟩ := List.forall_mem_cons.1 hrestMarkup
            have hinner := closeAll_shaped hsinceShaped
              (List.forall_mem_cons.2 ⟨hs, hsinceMarkup⟩) (List.forall_mem_nil _)
            exact ⟨houterMarkup, (ho.append hoMarkup hinner).close fun _ => rfl⟩
      have hb : Builder.Shaped { b with opened := outer } := ⟨h.tag, h.finished, houter⟩
      exact hb.append hclosed.1 hclosed.2
  | stray htag hpart => cases hpart

/-- Each token preserves this, since it is sound. -/
theorem add {pos : Nat} {token : Token} (hread : Reads pos mode cs token mode' rest)
    (hsound : b.Sound mode cs) (h : b.Shaped) (hadd : Builder.add config b token = .ok b') :
    b'.Shaped := by
  replace hadd := add_eq_ok.1 hadd
  cases hread with
  | comment hclear =>
      have hm := hsound.isMarkup (not_rawOpen_content fun t ht => by cases ht)
      cases hadd with
      | comment => exact h.append hm (isComment_of_clear hclear)
      | stray htag hpart => cases hpart
  | closeTag hinner => exact h.closeTag hsound hinner hadd
  | openTag hc hname hrest =>
      cases hadd with
      | openTag hcheck =>
          exact h.withTag ⟨isTagName_of_checked hc hname hcheck, List.forall_mem_nil _⟩
      | stray htag hpart => cases hpart
  | @text c more rest hclear hrest =>
      have hm := hsound.isMarkup (not_rawOpen_content fun t ht => by
        have hhead := hclear.1
        rw [ht] at hhead
        cases hhead)
      cases hadd with
      | text => exact h.append hm (by simp [Node.Throughout, Node.Shaped])
      | stray htag hpart => cases hpart
  | tagSelfClose hb =>
      have hm := hsound.isMarkup not_rawOpen_tag
      cases hadd with
      | tagSelfClose htag hmissing => exact h.enter hm htag hmissing
      | stray hnone hpart => exact h
  | tagEnd hb =>
      have hm := hsound.isMarkup not_rawOpen_tag
      cases hadd with
      | tagEnd htag hmissing => exact h.enter hm htag hmissing
      | stray hnone hpart => exact h
  | attributeValue hb hv =>
      cases hadd with
      | attributeValue htag hvalue => exact h.withTag ((h.tag _ htag).addValue? hvalue)
      | stray hnone hpart => exact h
  | attributeName hb hc hclear hrest =>
      cases hadd with
      | attributeName htag => exact h.withTag ((h.tag _ htag).addName _ _ _)
      | stray hnone hpart => exact h
  | @rawText opened element body rest hclear hend =>
      cases hadd with
      | rawEmpty => exact h
      | raw span hne =>
          refine h.modifyChildren (fun ns hns => List.forall_mem_cons.2 ⟨hne, hns⟩) ?_
          intro o ho hr
          rcases hsound.raw o ho with hm | ⟨-, rfl, hchildren⟩
          · exact absurd hr hm.not_raw
          · rw [hchildren]
            exact Or.inr ⟨_, _, rfl, lacksEndTag_of_clear hclear⟩
      | stray htag hpart => cases hpart

end Builder.Shaped

/-! ## Documents -/

/-- Every node that was read has its shape, and so have all nodes below it. -/
theorem Document.read_shaped {config : Config} {source : Source} {document : Document}
    (h : Document.read config source = .ok document) :
    Node.ThroughoutAll Node.Shaped document.children := by
  obtain ⟨tokens, b, hreads, hadd, hfinish⟩ := Document.read_ok.1 h
  obtain ⟨hsound, hshaped⟩ := hreads.preserves
    (I := fun mode cs b => Builder.Sound mode cs b ∧ b.Shaped)
    (fun hread hb hadd => ⟨hb.1.add hread hadd, hb.2.add hread hb.1 hadd⟩)
    ⟨.start source.chars, .start⟩ hadd
  have hm := hsound.isMarkup (Builder.not_rawOpen_content (by simp))
  rw [Builder.finish_ok hfinish, Node.throughoutAll_iff]
  intro n hn
  rcases List.mem_append.1 (List.mem_reverse.1 hn) with hn | hn
  · exact closeAll_shaped hshaped.opened hm (List.forall_mem_nil _) n hn
  · exact hshaped.finished n hn

/-- Every node of a document has its shape. -/
theorem Document.parse_shaped {config : Config} {source : Source} {document : Document}
    (h : Document.parse config source = .ok document) :
    ∀ below ∈ document.descendants, below.2.Shaped :=
  Node.ThroughoutAll.walk (Document.read_shaped (Except.mapError_eq_ok.1 h))

/-! ## A poster with a script -/

namespace Poster

/-- A comment, a void element with an end tag, and a script that has something like its end tag in
it. -/
def source : Source :=
  .ofString "poster" <| "<!-- a -> b --><p hidden class=x c:id='n'>#\x7bn\x7d<br></br>" ++
    "<script>a</SCRIPTS>b</script ></p>"

/-- All nodes of the poster have their shape; the script is one text, with what looks like an end
tag but has another name. -/
theorem parse_shaped_poster : ∃ document, Document.parse {} source = .ok document ∧
    (document.elements.map fun e => (e.name, e.hasEndTag)) =
      [("p", true), ("br", true), ("script", true)] ∧
    ∀ below ∈ document.descendants, below.2.Shaped := by
  have hparse : (Document.parse {} source).toOption.map
      (fun document => document.elements.map fun e => (e.name, e.hasEndTag)) =
        some [("p", true), ("br", true), ("script", true)] := by decide +kernel
  obtain ⟨document, hdocument, helements⟩ := Option.map_eq_some_iff.1 hparse
  have hdocument := Except.toOption_eq_some.1 hdocument
  exact ⟨document, hdocument, helements, Document.parse_shaped hdocument⟩

end Poster

end Markup

end TypedTemplate
