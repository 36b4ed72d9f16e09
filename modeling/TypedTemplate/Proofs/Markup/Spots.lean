/-
# `TypedTemplate.Proofs.Markup.Spots` — the places that a tree remembers

A tree says of each text, comment, start tag, attribute name and value where it stood, and
so which characters are to be found there: a `Spot`.  The spots of a document that was read
are where the tree says they are, and in document order they stand one after the other, no
two of them at the same place (`Document.spots_faithful`).

The spots of the tree are those of the tokens that count (`Document.spots_eq`).  A token's spot
is inside the token, and begins before the end of it (`Reads.spot`): a value may be empty, but
then a quote comes after it.
-/
import TypedTemplate.Proofs.Markup.Slices
import TypedTemplate.Proofs.Markup.Tree
import TypedTemplate.Proofs.Text.Slice

namespace TypedTemplate.Markup

open Text

/-- A place in the text, and what the tree says is there. -/
structure Spot where
  span : Span
  chars : List Char

/-! ## The spots of a tree -/

/-- The name of an attribute, and its value without quotes. -/
def Attribute.spots (a : Attribute) : List Spot :=
  ⟨a.span, a.name.toList⟩ ::
    match a.quote, a.valueSpan? with
    | .valued _, some span => [⟨span, (a.text?.getD "").toList⟩]
    | _, _ => []

/-- The beginning of a start tag, and its attributes. -/
def Element.spots (e : Element) : List Spot :=
  ⟨e.span, '<' :: e.name.toList⟩ :: e.attributes.flatMap Attribute.spots

mutual

/-- The spots of a node and of all below it, in document order. -/
def Node.spots : Node → List Spot
  | .text content span => [⟨span, content.toList⟩]
  | .comment content span => [⟨span, content.toList⟩]
  | .element e children => e.spots ++ Node.spotsAll children
termination_by structural node => node

/-- The spots of some nodes, in document order. -/
def Node.spotsAll : List Node → List Spot
  | [] => []
  | node :: rest => node.spots ++ Node.spotsAll rest
termination_by structural nodes => nodes

end

/-- The spots of a document, in document order. -/
def Document.spots (document : Document) : List Spot := Node.spotsAll document.children

/-! ## Spots are stamps with their characters -/

/-- The spot of a stamp that has a place. -/
def Stamp.spot? : Stamp → Option Spot
  | ⟨.text content, some span⟩ => some ⟨span, content.toList⟩
  | ⟨.comment content, some span⟩ => some ⟨span, content.toList⟩
  | ⟨.openTag name, some span⟩ => some ⟨span, '<' :: name.toList⟩
  | ⟨.attributeName name, some span⟩ => some ⟨span, name.toList⟩
  | ⟨.attributeValue _ text, some span⟩ => some ⟨span, text.toList⟩
  | _ => none

theorem Attribute.spots_eq (a : Attribute) : a.spots = a.stamps.filterMap Stamp.spot? := by
  rw [Attribute.spots, Attribute.stamps]
  cases a.quote <;> cases a.valueSpan? <;> rfl

theorem Element.spots_eq (e : Element) : e.spots = e.openStamps.filterMap Stamp.spot? := by
  have hattributes : e.attributes.flatMap Attribute.spots =
      (e.attributes.flatMap Attribute.stamps).filterMap Stamp.spot? := by
    rw [List.filterMap_flatMap, ← funext Attribute.spots_eq]
  rw [Element.spots, Element.openStamps, hattributes]
  cases e.selfClosed <;> simp [Stamp.spot?, Stamp.ending]

mutual

theorem Node.spots_eq : ∀ node : Node, node.spots = node.stamps.filterMap Stamp.spot?
  | .text _ _ => rfl
  | .comment _ _ => rfl
  | .element e children => by
      have hclose : e.closeStamps.filterMap Stamp.spot? = [] := by
        rw [Element.closeStamps]
        cases e.hasEndTag <;> rfl
      rw [Node.spots, Node.stamps, List.filterMap_append, List.filterMap_append, hclose,
        e.spots_eq, Node.spotsAll_eq children, List.append_nil]

theorem Node.spotsAll_eq : ∀ nodes : List Node,
    Node.spotsAll nodes = (Node.stampsAll nodes).filterMap Stamp.spot?
  | [] => rfl
  | node :: rest => by
      rw [Node.spotsAll, Node.stampsAll, List.filterMap_append, Node.spots_eq node,
        Node.spotsAll_eq rest]

end

/-- The spot of a token. -/
def Token.spot? (token : Token) : Option Spot := token.stamp.spot?

/-- A document has the spots of the tokens that count. -/
theorem Document.spots_eq {config : Config} {source : Source} {document : Document}
    (h : Document.read config source = .ok document) :
    document.spots = (counted (scan source.chars).tokens).filterMap Token.spot? := by
  have hstamps := (Document.follows_counted h).stamps
  rw [Document.stamps] at hstamps
  rw [Document.spots, Node.spotsAll_eq, hstamps, List.filterMap_map]
  rfl

/-! ## The spot of a token -/

variable {mode mode' : Mode} {pos pos' : Nat} {cs rest : List Char} {token : Token}
  {tokens : List Token}

/-- The spot is in the token, which does not end before it; nor does it end where it begins. -/
structure Token.Holds (token : Token) (spot : Spot) : Prop where
  start : token.span.start ≤ spot.span.start
  stop : spot.span.stop ≤ token.span.stop
  before : token.isEmptyBody = false → spot.span.start < token.span.stop

theorem size_pos_of_ne_nil (h : cs ≠ []) : 0 < size cs :=
  Nat.pos_of_ne_zero fun hzero => h (size_eq_zero.1 hzero)

/-- A token whose spot is all of it. -/
theorem Token.holds_self {spot : Spot} (hspan : spot.span = token.span)
    (hsize : token.isEmptyBody = false → 0 < token.span.length) : token.Holds spot := by
  refine ⟨by rw [hspan], by rw [hspan], fun hbody => ?_⟩
  have hlength := hsize hbody
  rw [hspan, Span.stop]
  omega

/-- A value stands inside its quotes, which are counted with the `=` before them. -/
theorem ReadsValue.spot {v : AttributeValue} (h : ReadsValue pos cs v rest) :
    ∃ before after, cs = before ++ v.text.toList ++ after ∧
      v.span = .ofChars (pos + size before) v.text.toList ∧
        v.span.start < pos + v.writtenLength - 1 ∧ v.span.stop ≤ pos + v.writtenLength - 1 := by
  have hdouble : Char.utf8Size '"' = 1 := rfl
  have hsingle : Char.utf8Size '\'' = 1 := rfl
  cases h with
  | @double body rest hbody =>
      refine ⟨['"'], '"' :: rest, by simp, by simp [hdouble], ?_, ?_⟩ <;>
        simp only [AttributeValue.writtenLength, Span.ofChars, Span.stop] <;> omega
  | @single body rest hbody =>
      refine ⟨['\''], '\'' :: rest, by simp, by simp [hsingle], ?_, ?_⟩ <;>
        simp only [AttributeValue.writtenLength, Span.ofChars, Span.stop] <;> omega
  | @unquoted c body rest _ _ _ _ =>
      have hpos : 0 < size (c :: body) := size_pos_of_ne_nil (List.cons_ne_nil c body)
      refine ⟨[], rest, by simp, by simp, ?_, ?_⟩ <;>
        simp only [AttributeValue.writtenLength, Span.ofChars, Span.stop] <;> omega

/-- Where the spot of a token stands, and that the token holds it. -/
theorem Reads.spot {spot : Spot} (h : Reads pos mode cs token mode' rest)
    (hspot : token.spot? = some spot) : ∃ before after, cs = before ++ spot.chars ++ after ∧
      spot.span = .ofChars (pos + size before) spot.chars ∧ token.Holds spot := by
  have hless : Char.utf8Size '<' = 1 := rfl
  obtain ⟨blanks, -, hcs, hspan⟩ := h.covers
  -- all tokens but a value are covered by their own spot
  have hself (hchars : spot.chars = token.chars) (hplace : spot.span = token.span)
      (hne : token.isEmptyBody = false → token.chars ≠ []) :
      ∃ before after, cs = before ++ spot.chars ++ after ∧
        spot.span = .ofChars (pos + size before) spot.chars ∧ token.Holds spot := by
    refine ⟨blanks, rest, by rw [hcs, hchars, List.append_assoc], by rw [hplace, hspan, hchars],
      Token.holds_self hplace fun hbody => ?_⟩
    rw [hspan]
    exact size_pos_of_ne_nil (hne hbody)
  cases h with
  | comment =>
      cases hspot
      exact hself rfl rfl fun _ => by simp [Token.chars]
  | closeTag => cases hspot
  | openTag =>
      cases hspot
      exact hself rfl rfl fun _ => by simp [Token.chars]
  | text =>
      cases hspot
      exact hself rfl rfl fun _ => by simp [Token.chars]
  | tagSelfClose => cases hspot
  | tagEnd => cases hspot
  | attributeName =>
      cases hspot
      exact hself rfl rfl fun _ => by simp [Token.chars]
  | @attributeValue opened element blanks' cs' _ v hblanks hvalue =>
      cases hspot
      obtain ⟨before, after, rfl, hplace, hbefore, hstop⟩ := hvalue.spot
      have hequals : Char.utf8Size '=' = 1 := rfl
      refine ⟨blanks' ++ '=' :: before, after, by simp, ?_, ⟨?_, ?_, fun _ => ?_⟩⟩
      · rw [hplace, size_append, size_cons, hequals]
        simp only [Nat.add_assoc]
      · rw [hplace]
        simp only [Token.span, Span.ofChars]
        omega
      · simp only [Token.span, Span.stop] at hstop ⊢
        omega
      · simp only [Token.span, Span.stop] at hbefore ⊢
        omega
  | rawText =>
      cases hspot
      refine hself rfl rfl fun hbody hnil => ?_
      rw [Token.isEmptyBody, String.toList_eq_nil_iff.1 hnil] at hbody
      cases hbody

/-- The spots of all tokens are where their tokens are, and the text has their characters. -/
theorem ReadsTo.spots (h : ReadsTo mode pos cs tokens mode' pos' rest) {earlier : List Char}
    (hpos : pos = size earlier) : ∀ token ∈ tokens, ∀ spot, token.spot? = some spot →
      slice? (earlier ++ cs) spot.span = some spot.chars ∧ token.Holds spot := by
  induction h generalizing earlier with
  | nil => exact List.forall_mem_nil _
  | @cons mode mode' mode'' pos pos'' cs rest rest' token tokens hread _ ih =>
      refine List.forall_mem_cons.2 ⟨fun spot hspot => ?_, ?_⟩
      · obtain ⟨before, after, rfl, hspan, hholds⟩ := hread.spot hspot
        refine ⟨slice?_eq_some.2 ⟨earlier ++ before, after, by simp, ?_⟩, hholds⟩
        rw [hspan, hpos, size_append]
      · obtain ⟨blanks, -, rfl, hspan⟩ := hread.covers
        have htext : earlier ++ (blanks ++ (token.chars ++ rest)) =
            earlier ++ blanks ++ token.chars ++ rest := by
          simp only [List.append_assoc]
        rw [htext]
        refine ih ?_
        rw [hspan, hpos, size_append, size_append]
        rfl

/-! ## The spots of a document -/

/-- The empty body of a raw text element does not count. -/
theorem isEmptyBody_of_mem_counted : ∀ {before : List Token}, ∀ token ∈ countedBack before,
    token.isEmptyBody = false
  | [], _, h => nomatch h
  | first :: before, token, h => by
      rw [countedBack] at h
      split at h
      · exact isEmptyBody_of_mem_counted token h
      · rename_i hidle
        rcases List.mem_cons.1 h with rfl | h
        · cases token with
          | rawText content span => exact Bool.eq_false_iff.2 hidle
          | _ => rfl
        · exact isEmptyBody_of_mem_counted token h

/-- Spots that stand one after the other, each beginning before the next. -/
def Spot.Precedes (a b : Spot) : Prop := a.span.start < b.span.start ∧ a.span.stop ≤ b.span.start

/-- The text has the characters of every spot at its span, and in document order the spots stand
one after the other. -/
theorem Document.spots_faithful {config : Config} {source : Source} {document : Document}
    (h : Document.read config source = .ok document) :
    (∀ spot ∈ document.spots, slice? source.chars spot.span = some spot.chars) ∧
      document.spots.Pairwise Spot.Precedes := by
  obtain ⟨pos, b, hto, -, -⟩ := Document.read_tokens h
  rw [Document.spots_eq h]
  generalize (scan source.chars).tokens = tokens at hto
  have hspots := hto.spots (show 0 = size [] from rfl)
  have hsub := counted_sublist tokens
  constructor
  · intro spot hspot
    obtain ⟨token, htoken, hspot⟩ := List.mem_filterMap.1 hspot
    exact (hspots token (hsub.subset htoken) spot hspot).1
  · rw [List.pairwise_filterMap]
    refine (hto.ordered.2.sublist hsub).imp_of_mem ?_
    intro first second hfirst hsecond hordered a ha b hb
    have hfirst' := (hspots first (hsub.subset hfirst) a ha).2
    have hsecond' := (hspots second (hsub.subset hsecond) b hb).2
    have hbody := isEmptyBody_of_mem_counted first (List.mem_reverse.1 hfirst)
    exact ⟨(hfirst'.before hbody).trans_le (hordered.trans hsecond'.start),
      hfirst'.stop.trans (hordered.trans hsecond'.start)⟩

end TypedTemplate.Markup
