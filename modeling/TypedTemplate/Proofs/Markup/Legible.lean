/-
# `TypedTemplate.Proofs.Markup.Legible` — tokens that can be read back

How far a token reaches depends on the characters after it, and these may change when the
tokens are written out again.  `Legible mode tokens` says of each token what must not stand
in it whatever comes next, and of two neighbours that the first ends where the second
begins: text is followed by something else, a value by no second value, and the body of a
raw text element by an end tag that ends it.

The tokens that a tree keeps are legible if no end tag was dropped
(`ReadsAll.legible`).  Between two pieces of text there was something in the source, and
a dropped end tag is the one thing that may have been there and is gone.
-/
import TypedTemplate.Proofs.Markup.Kept

namespace TypedTemplate.Markup

open Text

/-! ## What the tests see -/

/-- The character ends an attribute name wherever it stands. -/
def endsName (c : Char) : Bool :=
  isAsciiBlank c || c == '=' || c == '>' || c == '"' || c == '\'' || c == '<'

theorem endsAttributeName_cons (c : Char) (cs : List Char) :
    endsAttributeName (c :: cs) = (endsName c || (c == '/' && startsWith '>' cs)) := by
  by_cases hslash : c = '/' ∧ ∃ rest, cs = '>' :: rest
  · obtain ⟨rfl, rest, rfl⟩ := hslash
    rfl
  · have hno : (c == '/' && startsWith '>' cs) = false := by
      rw [Bool.eq_false_iff, ne_eq, Bool.and_eq_true, beq_iff_eq, startsWith_iff]
      exact hslash
    rw [hno, Bool.or_false, endsAttributeName]
    · rfl
    · rintro rest rfl rfl
      exact hslash ⟨rfl, rest, rfl⟩

theorem opens_iff {cs : List Char} : opens cs = true ↔ ∃ c rest, cs = '<' :: c :: rest ∧
    (c = '/' ∨ c.isAlpha = true ∨ c = '!' ∧ ∃ more, rest = '-' :: '-' :: more) := by
  constructor
  · intro h
    obtain ⟨opening, hopening⟩ := Option.isSome_iff_exists.1 h
    cases opening with
    | comment =>
        obtain ⟨rest, rfl⟩ := opening?_comment hopening
        exact ⟨'!', _, rfl, Or.inr (Or.inr ⟨rfl, rest, rfl⟩)⟩
    | closeTag =>
        obtain ⟨rest, rfl⟩ := opening?_closeTag hopening
        exact ⟨'/', rest, rfl, Or.inl rfl⟩
    | openTag =>
        obtain ⟨c, rest, rfl, hc⟩ := opening?_openTag.1 hopening
        exact ⟨c, rest, rfl, Or.inr (Or.inl hc)⟩
  · rintro ⟨c, rest, rfl, rfl | hc | ⟨rfl, more, rfl⟩⟩
    · rfl
    · rw [opens, opening?_openTag.2 ⟨c, rest, rfl, hc⟩]
      rfl
    · rfl

/-- Something begins at a place if it does in the part up to some later place. -/
theorem opens_append {cs : List Char} (h : opens cs = true) (rest : List Char) :
    opens (cs ++ rest) = true := by
  obtain ⟨c, more, rfl, hc⟩ := opens_iff.1 h
  refine opens_iff.2 ⟨c, more ++ rest, rfl, hc.imp_right (Or.imp_right ?_)⟩
  rintro ⟨rfl, tail, rfl⟩
  exact ⟨rfl, tail ++ rest, rfl⟩

/-- Something begins at a place without what follows, if a character follows that no markup has
after its `<`. -/
theorem opens_before_of {c d : Char} {s rest : List Char} (hslash : d ≠ '/') (hbang : d ≠ '!')
    (hdash : d ≠ '-') (halpha : d.isAlpha = false) (h : opens (c :: (s ++ d :: rest)) = true) :
    opens (c :: s) = true := by
  obtain ⟨e, tail, heq, he⟩ := opens_iff.1 h
  obtain ⟨rfl, htail⟩ := List.cons.inj heq
  cases s with
  | nil =>
      obtain ⟨rfl, -⟩ := List.cons.inj htail
      rcases he with he | he | ⟨he, -⟩
      · exact (hslash he).elim
      · rw [halpha] at he
        cases he
      · exact (hbang he).elim
  | cons f s =>
      obtain ⟨rfl, hs⟩ := List.cons.inj htail
      refine opens_iff.2 ⟨f, s, rfl, he.imp_right (Or.imp_right ?_)⟩
      rintro ⟨rfl, more, rfl⟩
      rcases s with _ | ⟨g, _ | ⟨k, s⟩⟩
      · exact (hdash (List.cons.inj hs).1).elim
      · exact (hdash (List.cons.inj (List.cons.inj hs).2).1).elim
      · cases hs
        exact ⟨rfl, s, rfl⟩

/-- A `<` that follows is not what makes something begin. -/
theorem opens_before {c : Char} {s rest : List Char} (h : opens (c :: (s ++ '<' :: rest)) = true) :
    opens (c :: s) = true :=
  opens_before_of (by decide) (by decide) (by decide) rfl h

theorem endsComment_before (c : Char) (s rest : List Char) :
    endsComment (c :: (s ++ '-' :: '-' :: '>' :: rest)) =
      endsComment (c :: (s ++ ['-', '-', '>'])) := by
  rw [Bool.eq_iff_iff, endsComment_iff, endsComment_iff]
  rcases s with _ | ⟨d, _ | ⟨e, s⟩⟩
  · simp
  · simp
  · simp

/-! ## Legible tokens -/

/-- The mode without the place where the start tag begins. -/
def Mode.bare : Mode → Mode
  | .content => .content
  | .tag _ element => .tag 0 element
  | .raw _ element => .raw 0 element

/-- The token is text. -/
def Token.IsText : Token → Prop
  | .text _ _ => True
  | _ => False

/-- The token is an attribute's value. -/
def Token.IsValue : Token → Prop
  | .attributeValue _ _ => True
  | _ => False

/-- Nothing in the value ends it. -/
def AttributeValue.Legible (v : AttributeValue) : Prop :=
  match v.quote with
  | .double => '"' ∉ v.text.toList
  | .single => '\'' ∉ v.text.toList
  | .unquoted => ∃ c body, v.text.toList = c :: body ∧ c ≠ '"' ∧ c ≠ '\'' ∧
      ∀ d ∈ c :: body, endsUnquoted d = false

/-- Tokens that can be read back once they are written out. -/
inductive Legible : Mode → List Token → Prop where
  | nil : Legible .content []
  | comment {body : List Char} {span : Span} {tokens : List Token} :
      Clear endsComment body ['-', '-', '>'] → Legible .content tokens →
      Legible .content
        (.comment (String.ofList ('<' :: '!' :: '-' :: '-' :: (body ++ ['-', '-', '>']))) span ::
          tokens)
  | closeTag {inner : String} {span : Span} {tokens : List Token} : '>' ∉ inner.toList →
      Legible .content tokens → Legible .content (.closeTag inner span :: tokens)
  | openTag {c : Char} {name : List Char} {span : Span} {tokens : List Token} :
      c.isAlpha = true → (∀ d ∈ name, isTagNameChar d = true) →
      Legible (.tag 0 (String.ofList (c :: name))) tokens →
      Legible .content (.openTag (String.ofList (c :: name)) span :: tokens)
  | text {c : Char} {more : List Char} {span : Span} {tokens : List Token} :
      Clear opens (c :: more) [] → (∀ t ∈ tokens.head?, ¬ t.IsText) → Legible .content tokens →
      Legible .content (.text (String.ofList (c :: more)) span :: tokens)
  | tagSelfClose {element : String} {span : Span} {tokens : List Token} :
      Legible .content tokens → Legible (.tag 0 element) (.tagSelfClose span :: tokens)
  | tagEnd {element : String} {span : Span} {tokens : List Token} :
      Legible (if isRawText element then .raw 0 element else .content) tokens →
      Legible (.tag 0 element) (.tagEnd span :: tokens)
  | attributeValue {element : String} {v : AttributeValue} {span : Span} {tokens : List Token} :
      v.Legible → (∀ t ∈ tokens.head?, ¬ t.IsValue) → Legible (.tag 0 element) tokens →
      Legible (.tag 0 element) (.attributeValue v span :: tokens)
  | attributeName {element : String} {c : Char} {name : List Char} {span : Span}
      {tokens : List Token} : isBlank c = false → Clear endsAttributeName (c :: name) [' '] →
      Legible (.tag 0 element) tokens →
      Legible (.tag 0 element) (.attributeName (String.ofList (c :: name)) span :: tokens)
  | rawText {element inner : String} {body : List Char} {span span' : Span}
      {tokens : List Token} : isRawText element = true →
      Clear (endsRawText element.toList) body ['<'] →
      EndsBody element.toList (closingName inner).toList →
      Legible .content (.closeTag inner span' :: tokens) →
      Legible (.raw 0 element)
        (.rawText (String.ofList body) span :: .closeTag inner span' :: tokens)

/-! ## What was read is legible -/

section

variable {config : Config} {mode mode' : Mode} {pos : Nat} {cs rest : List Char}
  {tokens : List Token} {b b' : Builder}

theorem ReadsValue.legible {v : AttributeValue} (h : ReadsValue pos cs v rest) : v.Legible := by
  cases h with
  | double hbody => simpa [AttributeValue.Legible] using hbody
  | single hbody => simpa [AttributeValue.Legible] using hbody
  | unquoted hdouble hsingle hall hrest =>
      exact ⟨_, _, String.toList_ofList, hdouble, hsingle, hall⟩

theorem clear_comment {body : List Char} (h : Clear endsComment body ('-' :: '-' :: '>' :: rest)) :
    Clear endsComment body ['-', '-', '>'] := by
  refine h.congr ?_
  intro c s _ hc
  rwa [← endsComment_before]

theorem clear_text {content : List Char} (h : Clear opens content rest) :
    Clear opens content [] := by
  refine h.congr ?_
  intro c s _ hc
  rw [List.append_nil, Bool.eq_false_iff]
  intro hopens
  rw [← List.cons_append, opens_append hopens] at hc
  cases hc

theorem clear_attributeName {name : List Char} (h : Clear endsAttributeName name rest) :
    Clear endsAttributeName name [' '] := by
  refine h.congr ?_
  intro c s _ hc
  rw [endsAttributeName_cons, Bool.or_eq_false_iff] at hc ⊢
  refine ⟨hc.1, ?_⟩
  cases s with
  | nil => exact Bool.and_false _
  | cons d s => exact hc.2

theorem clear_rawText {element : String} {body : List Char} (hraw : isRawText element = true)
    (h : Clear (endsRawText element.toList) body ('<' :: rest)) :
    Clear (endsRawText element.toList) body ['<'] := by
  refine h.congr ?_
  intro c s _ hc
  rw [Bool.eq_false_iff, ne_eq, endsRawText_append hraw] at hc ⊢
  exact hc

/-- The reader is in the body of a raw text element only. -/
def Mode.Proper : Mode → Prop
  | .raw _ element => isRawText element = true
  | _ => True

theorem Reads.proper {token : Token} (h : Reads pos mode cs token mode' rest) : mode'.Proper := by
  cases h with
  | @tagEnd opened element blanks rest hblanks =>
      cases hraw : isRawText element with
      | true => exact hraw
      | false => trivial
  | _ => trivial

/-- What follows text is not text. -/
theorem ReadsAll.head_text {content : String} {span : Span} (h : ReadsAll .content pos cs tokens)
    (hcs : cs = [] ∨ opens cs = true)
    (hadd : (b.append (.text content span)).addAll config tokens = .ok b')
    (hdrops : (b.append (.text content span)).dropsNone config tokens = true) :
    ∀ t ∈ ((b.append (.text content span)).kept config tokens).head?, ¬ t.IsText := by
  cases h with
  | nil =>
      intro t ht
      cases ht
  | cons hread hreads =>
      obtain ⟨next, hstep, -⟩ := Builder.addAll_cons_ok.1 hadd
      cases hread with
      | text hclear hrest =>
          have hopens := hcs.resolve_left (List.cons_ne_nil _ _)
          rw [show opens _ = false from hclear.1] at hopens
          cases hopens
      | comment hclear =>
          rw [Builder.kept_cons _ hstep rfl]
          rintro t ⟨⟩
          exact not_false
      | openTag hc hname hrest =>
          rw [Builder.kept_cons _ hstep rfl]
          rintro t ⟨⟩
          exact not_false
      | @closeTag inner rest hinner =>
          have hvoid : isVoid (closingName (String.ofList inner)) = false := by
            rw [Builder.dropsNone, Bool.and_eq_true] at hdrops
            simpa [Builder.drops, Builder.siblings_append, Node.pairs] using hdrops.1
          rw [Builder.kept_cons _ hstep (by simp [Builder.ignores, hvoid])]
          rintro t ⟨⟩
          exact not_false

/-- What follows a value is not a value. -/
theorem ReadsAll.head_value {opened : Nat} {element : String} {tag : TagSoFar}
    (h : ReadsAll (.tag opened element) pos cs tokens) (htag : b.tag = some tag)
    (hawaiting : tag.awaiting = false) (hadd : b.addAll config tokens = .ok b') :
    ∀ t ∈ (b.kept config tokens).head?, ¬ t.IsValue := by
  cases h with
  | cons hread hreads =>
      obtain ⟨next, hstep, -⟩ := Builder.addAll_cons_ok.1 hadd
      cases hread with
      | attributeValue hblanks hvalue =>
          cases add_eq_ok.1 hstep with
          | attributeValue hsome hadded =>
              cases htag.symm.trans hsome
              obtain ⟨hwaits, -⟩ := addValue?_eq_some.1 hadded
              rw [hawaiting] at hwaits
              cases hwaits
          | stray hnone hpart =>
              rw [hnone] at htag
              cases htag
      | _ =>
          rw [Builder.kept_cons _ hstep rfl]
          rintro t ⟨⟩
          exact not_false

/-- What follows the body of a raw text element ends it. -/
theorem ReadsAll.head_rawText {element : String} (h : ReadsAll .content pos cs tokens)
    (hraw : isRawText element = true) (hend : endsRawText element.toList cs = true)
    (hadd : b.addAll config tokens = .ok b') : ∃ inner span rest,
      b.kept config tokens = .closeTag inner span :: rest ∧
        EndsBody element.toList (closingName inner).toList := by
  have hshape : ∃ more, cs = '<' :: '/' :: more := by
    obtain ⟨x, y, hcs, -⟩ := endsRawText_iff.1 hend
    exact ⟨x ++ y, hcs⟩
  cases h with
  | nil => cases hend
  | cons hread hreads =>
      obtain ⟨next, hstep, -⟩ := Builder.addAll_cons_ok.1 hadd
      cases hread with
      | comment hclear =>
          obtain ⟨more, hcs⟩ := hshape
          cases hcs
      | openTag hc hname hrest =>
          obtain ⟨more, hcs⟩ := hshape
          cases hcs
          exact absurd hc (by decide)
      | text hclear hrest =>
          obtain ⟨more, hcs⟩ := hshape
          have hopens : opens _ = false := hclear.1
          rw [hcs] at hopens
          cases hopens
      | @closeTag inner _ hinner =>
          have hbody := closeTag_of_endsRawText hraw hend
            (cut?_startsWith.2 ⟨_, rfl, rfl, hinner⟩)
          have hclosing : EndsBody element.toList (closingName (String.ofList inner)).toList :=
            EndsBody.closingName hraw (by rwa [String.toList_ofList])
          have hvoid := hclosing.not_isVoid hraw
          exact ⟨_, _, _, Builder.kept_cons _ hstep (by simp [Builder.ignores, hvoid]), hclosing⟩

/-- The tokens that a tree keeps are legible if no end tag was dropped. -/
theorem ReadsAll.legible (h : ReadsAll mode pos cs tokens) (hmode : mode.Proper)
    (hb : b.Sound mode cs) (hadd : b.addAll config tokens = .ok b')
    (hdrops : b.dropsNone config tokens = true) : Legible mode.bare (b.kept config tokens) := by
  induction h generalizing b with
  | nil => exact .nil
  | @cons mode mode' pos cs rest token tokens hread hreads ih =>
      obtain ⟨next, hstep, hrest⟩ := Builder.addAll_cons_ok.1 hadd
      have hnext : next.dropsNone config tokens = true := by
        rw [Builder.dropsNone, hstep, Bool.and_eq_true] at hdrops
        exact hdrops.2
      have htokens := ih hread.proper (hb.add hread hstep) hrest hnext
      have hkept := Builder.kept_cons tokens hstep
      cases hread with
      | comment hclear =>
          rw [hkept rfl]
          exact .comment (clear_comment hclear) htokens
      | @closeTag inner rest hinner =>
          cases hignores : b.ignores (.closeTag (String.ofList inner) ⟨pos, size inner + 3⟩) with
          | true =>
              rw [Builder.kept, hstep]
              simpa [hignores] using htokens
          | false =>
              rw [hkept hignores]
              exact .closeTag (by simpa using hinner) htokens
      | openTag hc hname hend =>
          rw [hkept rfl]
          exact .openTag hc hname htokens
      | text hclear hend =>
          rw [hkept rfl]
          cases hstep
          exact .text (clear_text hclear) (hreads.head_text hend hrest hnext) htokens
      | tagSelfClose hblanks =>
          rw [hkept rfl]
          exact .tagSelfClose htokens
      | @tagEnd opened element blanks rest hblanks =>
          rw [hkept rfl]
          refine .tagEnd ?_
          cases hraw : isRawText element <;> simpa [hraw, Mode.bare] using htokens
      | attributeValue hblanks hvalue =>
          rw [hkept rfl]
          obtain ⟨tag, htag, -⟩ := hb.tag
          cases add_eq_ok.1 hstep with
          | attributeValue hsome hadded =>
              obtain ⟨-, last, earlier, -, rfl⟩ := addValue?_eq_some.1 hadded
              exact .attributeValue hvalue.legible (hreads.head_value rfl rfl hrest) htokens
          | stray hnone hpart =>
              rw [hnone] at htag
              cases htag
      | attributeName hblanks hc hclear hend =>
          rw [hkept rfl]
          exact .attributeName hc (clear_attributeName hclear) htokens
      | @rawText opened element body rest hclear hend =>
          rw [hkept rfl]
          obtain ⟨inner, span, more, hmore, hbody⟩ := hreads.head_rawText hmode hend hrest
          obtain ⟨x, y, rfl, -⟩ := endsRawText_iff.1 hend
          rw [hmore] at htokens ⊢
          exact .rawText hmode (clear_rawText hmode hclear) hbody htokens

end

end TypedTemplate.Markup
