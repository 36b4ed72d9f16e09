/-
# `TypedTemplate.Proofs.Markup.RoundTrip` — a document, written and read again

A document that was read and is written out is read again as the same document, apart from
places, exactly if no start tag in it runs together in writing (`Document.reread_iff`).
That no end tag was dropped has to be assumed: two pieces of text that stood on either side
of it are one when they are read again.
-/
import TypedTemplate.Proofs.Markup.Rereading

namespace TypedTemplate.Markup

/-! ## Marks do not know their places -/

theorem Attribute.marks_bare (a : Attribute) : a.bare.marks = a.marks := by
  rw [Attribute.marks, Attribute.marks, Attribute.bare]

theorem Element.openMarks_bare (e : Element) : e.bare.openMarks = e.openMarks := by
  have hmarks : e.bare.attributes.flatMap Attribute.marks =
      e.attributes.flatMap Attribute.marks := by
    simp [Element.bare, List.flatMap_map, Attribute.marks_bare]
  rw [Element.openMarks, Element.openMarks, hmarks]
  rfl

mutual

theorem Node.marks_bare : ∀ node : Node, node.bare.marks = node.marks
  | .text _ _ => rfl
  | .comment _ _ => rfl
  | .element e children => by
      rw [Node.bare, Node.marks, Node.marks, e.openMarks_bare, Node.marksAll_bare children]
      rfl

theorem Node.marksAll_bare : ∀ nodes : List Node,
    Node.marksAll (Node.bareAll nodes) = Node.marksAll nodes
  | [] => rfl
  | node :: rest => by
      rw [Node.bareAll, Node.marksAll, Node.marksAll, Node.marks_bare node,
        Node.marksAll_bare rest]

end

theorem Document.marks_eq {d d' : Document} (h : d.bare = d'.bare) : d.marks = d'.marks := by
  have hbare : ∀ d : Document, d.bare.marks = d.marks := fun d => Node.marksAll_bare d.children
  rw [← hbare d, h, hbare d']

/-! ## Reading again -/

/-- Start tags end as they do whether or not the end tags that do not count are there. -/
theorem Builder.endings_kept {config : Config} : ∀ {tokens : List Token} {b b' : Builder},
    b.addAll config tokens = .ok b' →
      endings ((b.kept config tokens).flatMap Token.marks) = endings (tokens.flatMap Token.marks)
  | [], _, _, _ => rfl
  | token :: tokens, b, b', h => by
      obtain ⟨next, hstep, hrest⟩ := addAll_cons_ok.1 h
      have ih := endings_kept hrest
      cases hignores : b.ignores token with
      | false =>
          rw [kept_cons _ hstep hignores, List.flatMap_cons, List.flatMap_cons, endings_append,
            endings_append, ih]
      | true =>
          have hmarks : endings token.marks = [] := by
            cases token with
            | closeTag inner span => rfl
            | _ => cases hignores
          rw [kept, hstep, List.flatMap_cons, endings_append, hmarks, ← ih]
          simp [hignores]

theorem Document.build?_eq_some {config : Config} {tokens : List Token} {document : Document} :
    Document.build? config tokens = some document ↔
      ∃ b, Builder.addAll config {} tokens = .ok b ∧ b.finish config = .ok document := by
  simp only [Document.build?, Option.bind_eq_some_iff, Except.toOption_eq_some]

section

variable {config : Config} {source : Source} {document : Document}

/-- A text that some tokens are written as is read into the document that they form, apart from
places. -/
theorem Document.read_written {tokens : List Token} (hlegible : Legible .content tokens)
    (hapart : Apart (tokens.flatMap Token.marks))
    (hbuild : Document.build? config tokens = some document)
    (hchars : source.chars = written (tokens.flatMap Token.marks)) :
    ∃ again, Document.read config source = .ok again ∧ again.bare = document.bare := by
  have hcontent : Mode.content.bare = .content := rfl
  obtain ⟨tokens', hreads, hbare⟩ := hlegible.readsAll 0 hcontent hapart
  have hsame := Document.build?_bare config hbare
  rw [hbuild] at hsame
  obtain ⟨again, hagain, hsame⟩ := Option.map_eq_some_iff.1 hsame
  obtain ⟨b, hadd, hfinish⟩ := Document.build?_eq_some.1 hagain
  exact ⟨again, Document.read_ok.2 ⟨tokens', b, hchars ▸ hreads, hadd, hfinish⟩, hsame⟩

/-- Written out and read again, a document is the same apart from places exactly if none of its
start tags runs together. -/
theorem Document.reread_iff (h : Document.read config source = .ok document)
    (hdrops : Document.dropsNone config source = true) (name : String) :
    (∃ again, Document.read config (.ofString name document.write) = .ok again ∧
      again.bare = document.bare) ↔
    ∀ below ∈ document.descendants, ∀ e ∈ below.2.element?, e.tagRuns = false := by
  obtain ⟨tokens, b, hreads, hadd, hfinish, hmarks⟩ := Document.marks_read h
  have hscan : (scan source.chars).tokens = tokens := by
    rw [show scan source.chars = ⟨tokens, none⟩ from scanFrom_eq.2 hreads]
  have hlegible : Legible .content (Builder.kept config {} tokens) :=
    hreads.legible trivial (.start source.chars) hadd (by rwa [Document.dropsNone, hscan] at hdrops)
  have hchars : (Source.ofString name document.write).chars =
      written ((Builder.kept config {} tokens).flatMap Token.marks) := by
    rw [← hmarks]
    exact document.toList_write
  rw [← Document.apart_marks, hmarks]
  constructor
  · rintro ⟨again, hagain, hbare⟩
    by_contra hclash
    obtain ⟨tokens', b', hreads', hadd', -, hmarks'⟩ := Document.marks_read hagain
    rw [hchars] at hreads'
    refine hlegible.endings_ne rfl hclash hreads' ?_
    rw [← Builder.endings_kept hadd', ← hmarks', Document.marks_eq hbare, hmarks]
  · intro hapart
    exact Document.read_written hlegible hapart
      (Document.build?_eq_some.2 ⟨b, Builder.addAll_kept hadd, hfinish⟩) hchars

end

end TypedTemplate.Markup
