/-
# `TypedTemplate.Proofs.Markup.Adds` — one step of the builder, as a relation

`Adds config b token b'` lists what the builder can make of a token that it takes, one
constructor for each way; `add_eq_ok` says that there are no others.  The parts of a start
tag count only inside one; `Mode.Fits` says that the reader and the builder agree on
whether they are in a start tag, and in which, and this is so at every token of a text.
-/
import TypedTemplate.Proofs.Markup.Reading

namespace TypedTemplate.Markup

/-- The part of a start tag is met outside of one. -/
def Token.isTagPart : Token → Bool
  | .attributeName _ _ | .attributeValue _ _ | .tagEnd _ | .tagSelfClose _ => true
  | _ => false

/-- The builder takes a token. -/
inductive Adds (config : Config) (b : Builder) : Token → Builder → Prop where
  | text (content : String) (span : Span) :
      Adds config b (.text content span) (b.append (.text content span))
  | comment (content : String) (span : Span) :
      Adds config b (.comment content span) (b.append (.comment content span))
  | rawEmpty {content : String} (span : Span) : content = "" →
      Adds config b (.rawText content span) b
  | raw {content : String} (span : Span) : content ≠ "" →
      Adds config b (.rawText content span) (b.append (.text content span))
  | openTag {name : String} {span : Span} : checkTagName name span = .ok () →
      Adds config b (.openTag name span) { b with tag := some { name := name, span := span } }
  | attributeName {name : String} {span : Span} {tag : TagSoFar} : b.tag = some tag →
      Adds config b (.attributeName name span)
        { b with tag := some (tag.addName (config.directive? name).isSome name span) }
  | attributeValue {value : AttributeValue} {span : Span} {tag tag' : TagSoFar} :
      b.tag = some tag → tag.addValue? value = some tag' →
      Adds config b (.attributeValue value span) { b with tag := some tag' }
  | tagEnd {span : Span} {tag : TagSoFar} : b.tag = some tag → tag.missingValue? = none →
      Adds config b (.tagEnd span) ({ b with tag := none }.enter (tag.element false))
  | tagSelfClose {span : Span} {tag : TagSoFar} : b.tag = some tag → tag.missingValue? = none →
      Adds config b (.tagSelfClose span) ({ b with tag := none }.enter (tag.element true))
  | closeVoid {inner : String} {span : Span} : checkTagName (closingName inner) span = .ok () →
      isVoid (closingName inner) = true →
      Adds config b (.closeTag inner span) (b.modifyChildren (markVoidEnd (closingName inner)))
  | closeNamed {inner : String} {span : Span} {node : Node} {outer : List OpenElement} :
      checkTagName (closingName inner) span = .ok () → isVoid (closingName inner) = false →
      Markup.closeNamed (closingName inner) [] b.opened = some (node, outer) →
      Adds config b (.closeTag inner span) ({ b with opened := outer }.append node)
  | stray {token : Token} : b.tag = none → token.isTagPart = true → Adds config b token b

/-- A value is taken by the attribute that waits for it. -/
theorem addValue?_eq_some {tag tag' : TagSoFar} {value : AttributeValue} :
    tag.addValue? value = some tag' ↔ tag.awaiting = true ∧ ∃ last earlier,
      tag.attributes = last :: earlier ∧
        tag' = { tag with
          attributes := last.setValue value :: earlier, awaiting := false } := by
  obtain ⟨name, span, attributes, awaiting⟩ := tag
  constructor
  · intro h
    cases awaiting with
    | false => cases h
    | true =>
        cases attributes with
        | nil => cases h
        | cons last earlier =>
            cases h
            exact ⟨rfl, last, earlier, rfl, rfl⟩
  · rintro ⟨rfl, last, earlier, rfl, rfl⟩
    rfl

theorem endTag_ok {b b' : Builder} {tag : TagSoFar} {selfClosed : Bool} :
    b.endTag tag selfClosed = .ok b' ↔ tag.missingValue? = none ∧
      { b with tag := none }.enter (tag.element selfClosed) = b' := by
  rw [Builder.endTag]
  cases tag.missingValue? with
  | none => simp
  | some a => simp [structural]

theorem close_ok {b b' : Builder} {name : String} {span : Span} :
    b.close name span = .ok b' ↔
      (isVoid name = true ∧ b.modifyChildren (markVoidEnd name) = b') ∨
      ∃ node outer, isVoid name = false ∧ closeNamed name [] b.opened = some (node, outer) ∧
        { b with opened := outer }.append node = b' := by
  rw [Builder.close]
  split
  · rename_i hvoid
    simp [hvoid]
  · rename_i hvoid
    have hfalse : isVoid name = false := Bool.eq_false_iff.2 hvoid
    split
    · rename_i node outer hclose
      rw [hclose]
      constructor
      · intro h
        cases h
        exact Or.inr ⟨node, outer, hfalse, rfl, rfl⟩
      · rintro (⟨hvoid, -⟩ | ⟨node, outer, -, heq, rfl⟩)
        · exact absurd hvoid (Bool.eq_false_iff.1 hfalse)
        · cases heq
          rfl
    · rename_i hclose
      simp [hfalse, hclose, structural]

theorem add_eq_ok {config : Config} {b b' : Builder} {token : Token} :
    b.add config token = .ok b' ↔ Adds config b token b' := by
  constructor
  · intro h
    unfold Builder.add at h
    split at h
    · cases h; exact .text _ _
    · cases h; exact .comment _ _
    · split at h
      · rename_i hempty
        cases h
        exact .rawEmpty _ (String.isEmpty_iff.1 hempty)
      · rename_i hempty
        cases h
        exact .raw _ fun hc => hempty (String.isEmpty_iff.2 hc)
    · obtain ⟨⟨⟩, hcheck, hpure⟩ := Except.bind_eq_ok.1 h
      cases Except.pure_eq_ok.1 hpure
      exact .openTag hcheck
    · obtain ⟨⟨⟩, hcheck, hclose⟩ := Except.bind_eq_ok.1 h
      rcases close_ok.1 hclose with ⟨hvoid, rfl⟩ | ⟨node, outer, hvoid, hnamed, rfl⟩
      · exact .closeVoid hcheck hvoid
      · exact .closeNamed hcheck hvoid hnamed
    · rename_i htag
      cases h
      exact .attributeName htag
    · rename_i htag
      split at h
      · rename_i hvalue
        cases h
        exact .attributeValue htag hvalue
      · cases h
    · rename_i htag
      obtain ⟨hmissing, rfl⟩ := endTag_ok.1 h
      exact .tagEnd htag hmissing
    · rename_i htag
      obtain ⟨hmissing, rfl⟩ := endTag_ok.1 h
      exact .tagSelfClose htag hmissing
    · rename_i t _ _ htext hcomment hraw hopen hclose htag
      cases h
      refine .stray htag ?_
      cases t with
      | text content span => exact (htext content span rfl).elim
      | comment content span => exact (hcomment content span rfl).elim
      | rawText content span => exact (hraw content span rfl).elim
      | openTag name span => exact (hopen name span rfl).elim
      | closeTag inner span => exact (hclose inner span rfl).elim
      | _ => rfl
  · intro h
    cases h with
    | text => rfl
    | comment => rfl
    | rawEmpty span hempty => simp [Builder.add, hempty]
    | raw span hne => simp [Builder.add, hne]
    | openTag hcheck => simp [Builder.add, hcheck, bind, Except.bind, pure, Except.pure]
    | attributeName htag => simp [Builder.add, htag]
    | attributeValue htag hvalue => simp [Builder.add, htag, hvalue]
    | tagEnd htag hmissing => simp [Builder.add, htag, endTag_ok, hmissing]
    | tagSelfClose htag hmissing => simp [Builder.add, htag, endTag_ok, hmissing]
    | closeVoid hcheck hvoid =>
        simp [Builder.add, hcheck, close_ok, hvoid, bind, Except.bind]
    | closeNamed hcheck hvoid hnamed =>
        simp only [Builder.add, hcheck, bind, Except.bind]
        exact close_ok.2 (Or.inr ⟨_, _, hvoid, hnamed, rfl⟩)
    | stray htag hpart => cases token <;> simp_all [Builder.add, Token.isTagPart]

/-! ## Any number of steps -/

/-- What the builder keeps whatever token it takes holds after any number of them. -/
theorem Builder.addAll_preserves {config : Config} {I : Builder → Prop}
    (hstep : ∀ {b b' : Builder} {token : Token}, I b → Adds config b token b' → I b') :
    ∀ {tokens : List Token} {b b' : Builder}, I b → b.addAll config tokens = .ok b' → I b'
  | [], _, _, hb, hadd => by
      cases hadd
      exact hb
  | _ :: _, _, _, hb, hadd => by
      obtain ⟨next, hfirst, hrest⟩ := addAll_cons_ok.1 hadd
      exact addAll_preserves hstep (hstep hb (add_eq_ok.1 hfirst)) hrest

/-- At the end of the text the open elements end. -/
theorem Builder.finish_ok {config : Config} {b : Builder} {document : Document}
    (h : b.finish config = .ok document) :
    document = ⟨(closeAll [] b.opened ++ b.finished).reverse⟩ := by
  rw [Builder.finish] at h
  split at h
  · cases h
  · cases h
    rfl

end TypedTemplate.Markup
