/-
# `TypedTemplate.Proofs.Markup.Kept` — a tree gives back the tokens it was made from

Every token leaves its mark in the tree, with one exception: the end tag of a void element
counts only if the node just before it is that element's start tag and has no end tag yet.
`Builder.kept` leaves out the end tags that do not count.  The tokens that are left build
the same tree (`Builder.addAll_kept`), and the tree gives back their marks
(`ReadsAll.marks`).

An end tag that does not count need not be lost: where the node before it has an end tag
already the tree says all there is to say.  `Builder.drops` is about the others.
-/
import TypedTemplate.Proofs.Markup.Stamps
import TypedTemplate.Proofs.Markup.WellFormed
import TypedTemplate.Proofs.Markup.Writing

namespace TypedTemplate.Markup

/-! ## End tags of void elements -/

/-- An end tag `name` belongs to this node: the start tag of a void element of that name. -/
def Node.pairs (name : String) : Node → Bool
  | .element e _ => e.name = name && !e.selfClosed
  | _ => false

/-- The token is the end tag of a void element and belongs to no node. -/
def Builder.drops (b : Builder) : Token → Bool
  | .closeTag inner _ =>
    isVoid (closingName inner) && !b.siblings.head?.any (Node.pairs (closingName inner))
  | _ => false

/-- The builder takes some tokens and drops none of them. -/
def Builder.dropsNone (config : Config) (b : Builder) : List Token → Bool
  | [] => true
  | token :: rest =>
    !b.drops token &&
      match b.add config token with
      | .ok b' => b'.dropsNone config rest
      | .error _ => true

/-- The tokens that leave a mark in the tree. -/
def Builder.kept (config : Config) (b : Builder) : List Token → List Token
  | [] => []
  | token :: rest =>
    match b.add config token with
    | .ok b' => if b.ignores token then b'.kept config rest else token :: b'.kept config rest
    | .error _ => []

/-! ## Marks of a tree that is being built -/

/-- The marks of a start tag read up to some point. -/
def TagSoFar.marks (tag : TagSoFar) : List Mark :=
  .openTag tag.name :: tag.attributes.reverse.flatMap Attribute.marks

/-- The marks of an open element. -/
def OpenElement.marks (o : OpenElement) : List Mark :=
  o.element.openMarks ++ o.children.reverse.flatMap Node.marks

/-- The marks of a tree that is being built, in document order. -/
def Builder.marks (b : Builder) : List Mark :=
  b.finished.reverse.flatMap Node.marks ++ b.opened.reverse.flatMap OpenElement.marks ++
    b.tag.elim [] TagSoFar.marks

theorem TagSoFar.marks_eq_stamps (tag : TagSoFar) : tag.marks = tag.stamps.map Stamp.mark := by
  rw [TagSoFar.marks, TagSoFar.stamps, List.map_cons, List.map_flatMap,
    ← funext Attribute.marks_eq_stamps]

theorem OpenElement.marks_eq_stamps (o : OpenElement) :
    o.marks = o.stamps.map Stamp.mark := by
  rw [OpenElement.marks, OpenElement.stamps, List.map_append, List.map_flatMap,
    o.element.openMarks_eq_stamps, ← funext Node.marks_eq_stamps]

theorem Builder.marks_eq_stamps (b : Builder) : b.marks = b.stamps.map Stamp.mark := by
  rw [Builder.marks, Builder.stamps, List.map_append, List.map_append, List.map_flatMap,
    List.map_flatMap, ← funext Node.marks_eq_stamps, ← funext OpenElement.marks_eq_stamps]
  cases b.tag with
  | none => rfl
  | some tag => rw [Option.elim_some, Option.elim_some, tag.marks_eq_stamps]

/-- A token adds its marks to those of the tree, unless it does not count. -/
theorem Builder.marks_add {config : Config} {b b' : Builder} {token : Token}
    (hadd : Adds config b token b') (htag : b.tag.isSome = token.isTagPart)
    (hfresh : ∀ t ∈ b.tag, t.Fresh) :
    b'.marks = b.marks ++ if b.ignores token then [] else token.marks := by
  rw [b'.marks_eq_stamps, b.marks_eq_stamps, stamps_add hadd htag hfresh, token.marks_eq_stamp]
  cases b.ignores token <;> cases token.isEmptyBody <;> simp

/-! ## Marks of a text -/

theorem Reads.isTagPart {pos : Nat} {mode mode' : Mode} {cs rest : List Char} {token : Token}
    {tag : Option TagSoFar} (h : Reads pos mode cs token mode' rest) (htag : mode.Agrees tag) :
    tag.isSome = token.isTagPart := by
  cases h with
  | comment => exact htag ▸ rfl
  | closeTag => exact htag ▸ rfl
  | openTag => exact htag ▸ rfl
  | text => exact htag ▸ rfl
  | rawText => exact htag ▸ rfl
  | _ =>
      obtain ⟨t, rfl, -⟩ := htag
      rfl

/-- What the builder has when the reader is at `cs`, for the tree to give back all marks. -/
structure Builder.Faithful (mode : Mode) (cs : List Char) (b : Builder) : Prop
    extends Builder.Sound mode cs b where
  fresh : ∀ t ∈ b.tag, t.Fresh

namespace ReadsAll

variable {config : Config} {mode : Mode} {pos : Nat} {cs : List Char} {tokens : List Token}
  {b b' : Builder}

/-- The tree gives back the marks of the tokens that count. -/
theorem marks (h : ReadsAll mode pos cs tokens) (hb : b.Faithful mode cs)
    (hadd : b.addAll config tokens = .ok b') :
    b'.marks = b.marks ++ (b.kept config tokens).flatMap Token.marks := by
  induction h generalizing b with
  | nil =>
      cases hadd
      exact (List.append_nil _).symm
  | @cons mode mode' pos cs rest token tokens hread _ ih =>
      obtain ⟨next, hstep, hrest⟩ := Builder.addAll_cons_ok.1 hadd
      have hadds := add_eq_ok.1 hstep
      have hmarks := Builder.marks_add hadds (hread.isTagPart hb.tag) hb.fresh
      rw [ih ⟨hb.toSound.add hread hstep, Builder.add_fresh hadds hb.fresh⟩ hrest, hmarks,
        Builder.kept, hstep]
      cases b.ignores token <;> simp

end ReadsAll

theorem Builder.kept_cons {config : Config} {b b' : Builder} {token : Token} (tokens : List Token)
    (hadd : b.add config token = .ok b') (h : b.ignores token = false) :
    b.kept config (token :: tokens) = token :: b'.kept config tokens := by
  rw [kept, hadd]
  exact if_neg (Bool.eq_false_iff.1 h)

/-- The tokens that count build what all tokens build. -/
theorem Builder.addAll_kept {config : Config} : ∀ {tokens : List Token} {b b' : Builder},
    b.addAll config tokens = .ok b' → b.addAll config (b.kept config tokens) = .ok b'
  | [], _, _, h => h
  | token :: tokens, b, b', h => by
      obtain ⟨next, hstep, h⟩ := addAll_cons_ok.1 h
      have hrest := addAll_kept h
      rw [kept, hstep]
      cases hignores : b.ignores token with
      | true =>
          rw [add_ignores (add_eq_ok.1 hstep) hignores] at hrest ⊢
          exact hrest
      | false => exact addAll_cons_ok.2 ⟨next, hstep, hrest⟩

/-- A document gives back the marks of its tokens. -/
theorem Document.marks_finish {config : Config} {b : Builder} {document : Document}
    (htag : b.tag = none) (h : b.finish config = .ok document) : document.marks = b.marks := by
  rw [b.marks_eq_stamps, ← Document.stamps_finish htag h]
  exact Node.marksAll_eq_stamps document.children

/-- No end tag of the text was dropped. -/
def Document.dropsNone (config : Config) (source : Source) : Bool :=
  Builder.dropsNone config {} (scan source.chars).tokens

/-- A text that was read into a document, and the tokens of it that the document gives back. -/
theorem Document.marks_read {config : Config} {source : Source} {document : Document}
    (h : Document.read config source = .ok document) : ∃ tokens b,
      ReadsAll .content 0 source.chars tokens ∧ Builder.addAll config {} tokens = .ok b ∧
        b.finish config = .ok document ∧
        document.marks = (Builder.kept config {} tokens).flatMap Token.marks := by
  obtain ⟨tokens, b, hreads, hadd, hfinish⟩ := Document.read_ok.1 h
  have hstart : Builder.Faithful .content source.chars {} :=
    ⟨.start source.chars, fun t ht => nomatch ht⟩
  have hend := hreads.preserves (I := Builder.Sound) Builder.Sound.add hstart.toSound hadd
  refine ⟨tokens, b, hreads, hadd, hfinish, ?_⟩
  rw [Document.marks_finish hend.tag hfinish, hreads.marks hstart hadd]
  rfl

end TypedTemplate.Markup
