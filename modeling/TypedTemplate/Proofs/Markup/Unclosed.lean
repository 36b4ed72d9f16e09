/-
# `TypedTemplate.Proofs.Markup.Unclosed` — asking for every end tag

A template may be asked to end with all its elements closed.  That is decided when all tokens
have been taken, so it refuses nothing else: the tree is the same, and a text that is no
template without the demand fails with it in the same way.

What the builder still holds open can be told from the finished tree.  Only elements that
need an end tag are opened, and whatever else is finished at the top level ended by itself
(`Builder.Awaiting`).  At the end of the text the open elements become one node, the last
of the document, without an end tag of its own; the elements inside that node may be
without one as well, and are never what is reported.
-/
import TypedTemplate.Proofs.Markup.Nesting

namespace TypedTemplate.Markup

/-- The node did not need the end of the text, or of an element around it, to end. -/
def Node.Ended : Node → Prop
  | .element e _ => isVoid e.name = true ∨ e.selfClosed = true ∨ e.hasEndTag = true
  | _ => True

instance : DecidablePred Node.Ended
  | .element e _ =>
    inferInstanceAs (Decidable (isVoid e.name = true ∨ e.selfClosed = true ∨ e.hasEndTag = true))
  | .text _ _ => .isTrue trivial
  | .comment _ _ => .isTrue trivial

/-- An element that is open until its end tag is met. -/
def OpenElement.Awaits (o : OpenElement) : Prop :=
  isVoid o.element.name = false ∧ o.element.selfClosed = false

theorem OpenElement.Awaits.not_ended {o : OpenElement} (h : o.Awaits) (children : List Node) :
    ¬ (Node.element { o.element with hasEndTag := false } children).Ended := by
  rintro (hvoid | hself | hend)
  · rw [h.1] at hvoid
    cases hvoid
  · rw [h.2] at hself
    cases hself
  · cases hend

/-- The nodes at the top level have ended, and the open elements wait for their end tags. -/
structure Builder.Awaiting (b : Builder) : Prop where
  finished : ∀ n ∈ b.finished, n.Ended
  opened : ∀ o ∈ b.opened, o.Awaits

theorem markVoidEnd_ended {name : String} {nodes : List Node} (h : ∀ n ∈ nodes, n.Ended) :
    ∀ n ∈ markVoidEnd name nodes, n.Ended := by
  unfold markVoidEnd
  split
  · rename_i e children rest
    split
    · obtain ⟨-, hrest⟩ := List.forall_mem_cons.1 h
      exact List.forall_mem_cons.2 ⟨Or.inr (Or.inr rfl), hrest⟩
    · exact h
  · exact h

namespace Builder.Awaiting

variable {config : Config} {b b' : Builder} {token : Token}

theorem start : Builder.Awaiting {} := ⟨List.forall_mem_nil _, List.forall_mem_nil _⟩

theorem modifyChildren (h : b.Awaiting) {change : List Node → List Node}
    (hchange : ∀ nodes, (∀ n ∈ nodes, n.Ended) → ∀ n ∈ change nodes, n.Ended) :
    (b.modifyChildren change).Awaiting := by
  obtain ⟨finished, opened, tag⟩ := b
  cases opened with
  | nil => exact ⟨hchange _ h.finished, List.forall_mem_nil _⟩
  | cons o outer =>
      obtain ⟨ho, houter⟩ := List.forall_mem_cons.1 h.opened
      exact ⟨h.finished, List.forall_mem_cons.2 ⟨ho, houter⟩⟩

theorem append (h : b.Awaiting) {node : Node} (hnode : node.Ended) : (b.append node).Awaiting :=
  h.modifyChildren fun _ hnodes => List.forall_mem_cons.2 ⟨hnode, hnodes⟩

/-- An element without an end is not opened. -/
theorem enter (h : b.Awaiting) (e : Element) : (b.enter e).Awaiting := by
  rw [Builder.enter]
  split
  · rename_i hleaf
    rcases Bool.or_eq_true_iff.1 hleaf with hself | hvoid
    · exact h.append (Or.inr (Or.inl hself))
    · exact h.append (Or.inl hvoid)
  · rename_i hopen
    rw [Bool.or_eq_true, not_or, Bool.not_eq_true, Bool.not_eq_true] at hopen
    exact ⟨h.finished, List.forall_mem_cons.2 ⟨⟨hopen.2, hopen.1⟩, h.opened⟩⟩

/-- Every token keeps this. -/
theorem add (h : b.Awaiting) (hadd : Adds config b token b') : b'.Awaiting := by
  cases hadd with
  | text content span => exact h.append trivial
  | comment content span => exact h.append trivial
  | rawEmpty => exact h
  | raw => exact h.append trivial
  | openTag => exact ⟨h.finished, h.opened⟩
  | attributeName => exact ⟨h.finished, h.opened⟩
  | attributeValue => exact ⟨h.finished, h.opened⟩
  | tagEnd => exact enter (b := { b with tag := none }) ⟨h.finished, h.opened⟩ _
  | tagSelfClose => exact enter (b := { b with tag := none }) ⟨h.finished, h.opened⟩ _
  | closeVoid => exact h.modifyChildren fun _ hnodes => markVoidEnd_ended hnodes
  | @closeNamed _ _ node outer _ _ hclose =>
      obtain ⟨since, o, hopened, -, -, rfl⟩ := closeNamed_eq_some hclose
      have houter : ∀ o' ∈ outer, o'.Awaits := fun o' ho' =>
        h.opened o' (by rw [hopened]; exact List.mem_append_right _ (List.mem_cons_of_mem _ ho'))
      exact append (b := { b with opened := outer }) ⟨h.finished, houter⟩ (Or.inr (Or.inr rfl))
  | stray => exact h

end Builder.Awaiting

/-- The node that the open elements become is the outermost of them. -/
theorem closeAll_eq_singleton {o : OpenElement} {opened : List OpenElement} (inner : List Node)
    (h : opened.getLast? = some o) : ∃ children,
      closeAll inner opened = [.element { o.element with hasEndTag := false } children] := by
  induction opened generalizing inner with
  | nil => cases h
  | cons first outer ih =>
      cases outer with
      | nil =>
          cases h
          exact ⟨_, rfl⟩
      | cons next outer =>
          rw [List.getLast?_cons_cons] at h
          exact ih _ h

/-! ## With the demand and without it -/

section

variable {config : Config}

/-- The demand does not matter while tokens are taken. -/
theorem Builder.addAll_strict (strict : Bool) : ∀ (tokens : List Token) (b : Builder),
    b.addAll { config with strictEndTags := strict } tokens = b.addAll config tokens
  | [], _ => rfl
  | token :: tokens, b => by
      have hadd : b.add { config with strictEndTags := strict } token = b.add config token := rfl
      rw [addAll_cons, addAll_cons, hadd]
      exact congrArg (b.add config token >>= ·) (funext (addAll_strict strict tokens))

/-- What the demand makes of a tree that can be finished without it. -/
theorem Builder.finish_strict {b : Builder} (hb : b.Awaiting) :
    ∃ document : Document, b.finish { config with strictEndTags := false } = .ok document ∧
      ((b.finish { config with strictEndTags := true } = .ok document ∧
          ∀ n ∈ document.children, n.Ended) ∨
        ∃ before e children, document.children = before ++ [.element e children] ∧
          (∀ n ∈ before, n.Ended) ∧ ¬ (Node.element e children).Ended ∧
            b.finish { config with strictEndTags := true } =
              .error ⟨.neverClosed e.name, e.span⟩) := by
  refine ⟨_, rfl, ?_⟩
  have hfinished : ∀ n ∈ b.finished.reverse, n.Ended := fun n hn =>
    hb.finished n (List.mem_reverse.1 hn)
  cases hlast : b.opened.getLast? with
  | none =>
      refine Or.inl ⟨by rw [Builder.finish, hlast], ?_⟩
      rw [List.getLast?_eq_none_iff.1 hlast]
      exact hfinished
  | some o =>
      obtain ⟨children, hclose⟩ := closeAll_eq_singleton [] hlast
      have hopen := (hb.opened o (List.mem_of_getLast? hlast)).not_ended children
      refine Or.inr ⟨b.finished.reverse, { o.element with hasEndTag := false }, children, ?_,
        hfinished, hopen, by rw [Builder.finish, hlast]; rfl⟩
      rw [hclose]
      exact List.reverse_cons

/-- The same for whole texts, with the faults of texts that are refused in any case. -/
theorem Document.read_strict (config : Config) (source : Source) :
    (∃ error, Document.read { config with strictEndTags := false } source = .error error ∧
        Document.read { config with strictEndTags := true } source = .error error) ∨
    ∃ document, Document.read { config with strictEndTags := false } source = .ok document ∧
      ((Document.read { config with strictEndTags := true } source = .ok document ∧
          ∀ n ∈ document.children, n.Ended) ∨
        ∃ before e children, document.children = before ++ [.element e children] ∧
          (∀ n ∈ before, n.Ended) ∧ ¬ (Node.element e children).Ended ∧
            Document.read { config with strictEndTags := true } source =
              .error (.structural ⟨.neverClosed e.name, e.span⟩)) := by
  simp only [Document.read, Document.ofTokens, Builder.addAll_strict]
  cases hadd : Builder.addAll config {} (scan source.chars).tokens with
  | error fault => exact Or.inl ⟨_, rfl, rfl⟩
  | ok b =>
      cases (scan source.chars).fault with
      | some fault => exact Or.inl ⟨_, rfl, rfl⟩
      | none =>
          have hb := Builder.addAll_preserves Builder.Awaiting.add .start hadd
          obtain ⟨document, hlax, hstrict⟩ := @Builder.finish_strict config b hb
          refine Or.inr ⟨document, by simp only [hlax], ?_⟩
          rcases hstrict with ⟨hok, hended⟩ | ⟨before, e, children, hlast, hbefore, hopen, herror⟩
          · exact Or.inl ⟨by simp only [hok], hended⟩
          · exact Or.inr ⟨before, e, children, hlast, hbefore, hopen, by simp only [herror]⟩

end

/-- Asking for every end tag refuses just the templates whose last node is an element that only
the end of the text ends, and reports that element.  What it accepts is the same tree, and what is
refused without it is refused for the same reason. -/
theorem Document.parse_strict (config : Config) (source : Source) :
    (∀ document, Document.parse { config with strictEndTags := true } source = .ok document ↔
      Document.parse { config with strictEndTags := false } source = .ok document ∧
        ∀ n ∈ document.children, n.Ended) ∧
    (∀ document, Document.parse { config with strictEndTags := false } source = .ok document →
      (¬ ∀ n ∈ document.children, n.Ended) →
        ∃ before e children, document.children = before ++ [.element e children] ∧
          (∀ n ∈ before, n.Ended) ∧ ¬ (Node.element e children).Ended ∧
            Document.parse { config with strictEndTags := true } source =
              .error (source.diagnose (.structural ⟨.neverClosed e.name, e.span⟩))) ∧
    (∀ d, Document.parse { config with strictEndTags := false } source = .error d →
      Document.parse { config with strictEndTags := true } source = .error d) := by
  unfold Document.parse
  rcases Document.read_strict config source with ⟨error, hlax, hstrict⟩ | ⟨document, hlax, hstrict⟩
  · rw [hlax, hstrict]
    refine ⟨fun document => ⟨fun h => ?_, fun h => ?_⟩, fun document h => ?_, fun d h => h⟩
    · cases h
    · cases h.1
    · cases h
  · rw [hlax]
    rcases hstrict with ⟨hok, hended⟩ | ⟨before, e, children, hlast, hbefore, hopen, herror⟩
    · rw [hok]
      refine ⟨fun other => ⟨fun h => ⟨h, ?_⟩, fun h => h.1⟩, fun other h hnot => ?_, fun d h => h⟩
      · cases h
        exact hended
      · cases h
        exact (hnot hended).elim
    · rw [herror]
      have hlast_mem : Node.element e children ∈ document.children := by
        rw [hlast]
        exact List.mem_append_right _ List.mem_cons_self
      refine ⟨fun other => ⟨fun h => ?_, fun h => ?_⟩, fun other h _ => ?_, fun d h => ?_⟩
      · cases h
      · obtain ⟨hsame, hended⟩ := h
        cases hsame
        exact (hopen (hended _ hlast_mem)).elim
      · cases h
        exact ⟨before, e, children, hlast, hbefore, hopen, rfl⟩
      · cases h

/-! ## A page -/

namespace Page

/-- A page that ends with an open element, and inside that with another one. -/
def left : Source := .ofString "left" "<hr><p>one<div>two<b>three"

/-- With its end tag the outer element is closed, and the inner one ends with it. -/
def closed : Source := .ofString "closed" "<hr><div>two<b>three</div>"

/-- Only the outermost open element is reported, and what ends inside another needs no end tag. -/
theorem parse_strict_left :
    Document.parse { strictEndTags := true } left =
      .error (left.diagnose (.structural ⟨.neverClosed "p", ⟨4, 2⟩⟩)) ∧
    ∃ document, Document.parse { strictEndTags := true } closed = .ok document ∧
      Document.parse {} closed = .ok document := by
  have hleft : (Document.parse {} left).toOption.map
      (fun document => (document.children.all fun n => decide n.Ended,
        document.children.getLast?.bind Node.element? |>.map fun e => (e.name, e.span))) =
        some (false, some ("p", ⟨4, 2⟩)) := by decide +kernel
  have hclosed : (Document.parse {} closed).toOption.map
      (fun document => document.children.all fun n => decide n.Ended) = some true := by
    decide +kernel
  obtain ⟨document, hparse, hchildren⟩ := Option.map_eq_some_iff.1 hleft
  obtain ⟨hopen, hlast⟩ := Prod.mk.inj hchildren
  obtain ⟨before, e, children, hdocument, -, -, herror⟩ :=
    (Document.parse_strict {} left).2.1 document (Except.toOption_eq_some.1 hparse) (by
      simpa using hopen)
  obtain ⟨document', hparse', hended⟩ := Option.map_eq_some_iff.1 hclosed
  have hparse' := Except.toOption_eq_some.1 hparse'
  refine ⟨?_, document', ?_, hparse'⟩
  · have hsame : e.name = "p" ∧ e.span = ⟨4, 2⟩ := by simpa [hdocument, Node.element?] using hlast
    rw [← hsame.1, ← hsame.2]
    exact herror
  · exact ((Document.parse_strict {} closed).1 document').2 ⟨hparse', by simpa using hended⟩

end Page

end TypedTemplate.Markup
