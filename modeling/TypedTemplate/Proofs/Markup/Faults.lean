/-
# `TypedTemplate.Proofs.Markup.Faults` — a fault in the markup is about characters of the template

A template can be refused while it is divided into tokens or while the tree is built.  Most
faults are about the place where the reader is; but a start tag or a raw text element that does
not end is reported where it begins, and an element without an end tag or an attribute without
a value when the tokens that told of them are long past.  So the reader remembers places
(`Mode.Stands`), and so does the builder (`Builder.Stands`): they stay places of the text, token
after token, and whatever is reported covers characters of it (`Document.read_fault`).
-/
import TypedTemplate.Proofs.Except
import TypedTemplate.Proofs.Markup.Slices
import TypedTemplate.Proofs.Markup.Stamps

namespace TypedTemplate.Markup

open Text

/-! ## Dividing into tokens -/

section

variable {mode mode' : Mode} {pos : Nat} {text cs rest : List Char} {token : Token}
  {fault : Fault LexicalCause}

/-- The start tag that the reader is in, or that began the body it is in, begins in the text. -/
def Mode.Stands (text : List Char) : Mode → Prop
  | .content => True
  | .tag opened _ => Lies text ⟨opened, 1⟩
  | .raw opened _ => Lies text ⟨opened, 1⟩

theorem Reads.stands (h : Reads pos mode cs token mode' rest) (hcs : dropBytes? pos text = some cs)
    (hmode : mode.Stands text) : mode'.Stands text := by
  cases h with
  | openTag =>
      have hopened : Lies text (.ofChars pos ['<']) := lies_of_dropBytes? hcs
      exact hopened
  | tagEnd =>
      split
      · exact hmode
      · trivial
  | attributeValue => exact hmode
  | attributeName => exact hmode
  | _ => trivial

theorem nextContent_failed (h : nextContent pos cs = .failed fault)
    (hcs : dropBytes? pos text = some cs) : Lies text fault.span := by
  unfold nextContent at h
  split at h
  · rename_i hopening
    obtain ⟨rest, rfl⟩ := opening?_comment hopening
    have hopener : Lies text (.ofChars pos ['<', '!', '-', '-']) := lies_of_dropBytes? hcs
    split at h
    · cases h
    · cases h
      exact hopener
  · rename_i hopening
    obtain ⟨rest, rfl⟩ := opening?_closeTag hopening
    have hopener : Lies text (.ofChars pos ['<', '/']) := lies_of_dropBytes? hcs
    split at h
    · cases h
    · cases h
      exact hopener
  · cases h
  · split at h
    · cases h
    · cases h

theorem nextPart_failed {opened : Nat} {element : String}
    (h : nextPart opened element pos cs = .failed fault) (hcs : dropBytes? pos text = some cs)
    (hopened : Lies text ⟨opened, 1⟩) : Lies text fault.span := by
  unfold nextPart at h
  split at h
  · cases h
    exact hopened
  · cases h
  · cases h
  · have hequals : Lies text (.ofChars pos ['=']) := lies_of_dropBytes? hcs
    split at h
    · cases h
    · cases h
      exact hequals
  · rename_i c cs _ _ _
    have hfirst : Lies text (.ofChars pos [c]) := lies_of_dropBytes? hcs
    split at h
    · cases h
      exact hfirst
    · cases h

/-- Where no token begins, what is reported stands there, or it is where the start tag begins. -/
theorem next_failed (h : next mode pos cs = .failed fault) (hcs : dropBytes? pos text = some cs)
    (hmode : mode.Stands text) : Lies text fault.span := by
  cases mode with
  | content => exact nextContent_failed h hcs
  | tag opened element => exact nextPart_failed h (dropBytes?_dropWhile hcs isBlank) hmode
  | raw opened element =>
      rw [next, nextRaw] at h
      split at h
      · cases h
      · cases h
        exact hmode

/-- Dividing comes to a halt at a place of the text, or inside a tag that begins at one. -/
theorem scanFrom_fault (h : (scanFrom mode pos cs).fault = some fault)
    (hcs : dropBytes? pos text = some cs) (hmode : mode.Stands text) : Lies text fault.span := by
  induction mode, pos, cs using scanFrom.induct with
  | case1 mode pos cs hnext =>
      rw [scanFrom, hnext] at h
      cases h
  | case2 mode pos cs fault' hnext =>
      rw [scanFrom, hnext] at h
      cases h
      exact next_failed hnext hcs hmode
  | case3 mode pos cs token mode' rest hnext ih =>
      rw [scanFrom_found hnext] at h
      have hreads := next_eq_found.1 hnext
      exact ih h (hreads.goes_on hcs) (hreads.stands hcs hmode)

theorem scan_lies (text : List Char) : ∀ token ∈ (scan text).tokens, Lies text token.span := by
  intro token htoken
  obtain ⟨mode, pos, rest, hto⟩ := ReadsTo.of_scanFrom (List.append_nil (scan text).tokens).symm
  exact ⟨_, hto.slice (show 0 = size [] from rfl) token htoken⟩

end

/-! ## Building the tree -/

section

variable {config : Config} {text : List Char} {b b' : Builder} {token : Token}

/-- The start tag that is being read, its attributes and the open elements stand in the text. -/
structure Builder.Stands (text : List Char) (b : Builder) : Prop where
  tag : ∀ tag ∈ b.tag, Lies text tag.span ∧ ∀ a ∈ tag.attributes, Lies text a.span
  opened : ∀ o ∈ b.opened, Lies text o.element.span

theorem Builder.stands_start (text : List Char) : Builder.Stands text {} where
  tag _ htag := nomatch htag
  opened _ ho := nomatch ho

theorem Builder.Stands.modifyChildren (hb : b.Stands text) (change : List Node → List Node) :
    (b.modifyChildren change).Stands text where
  tag := by
    rw [modifyChildren_tag]
    exact hb.tag
  opened := by
    have hopened := hb.opened
    rw [Builder.modifyChildren]
    split
    · exact hopened
    · rename_i o outer heq
      rw [heq] at hopened
      obtain ⟨ho, houter⟩ := List.forall_mem_cons.1 hopened
      exact List.forall_mem_cons.2 ⟨ho, houter⟩

theorem closeNamed_subset {name : String} : ∀ {opened : List OpenElement} {inner : List Node}
    {node : Node} {outer : List OpenElement}, closeNamed name inner opened = some (node, outer) →
    outer ⊆ opened
  | [], _, _, _, h => nomatch h
  | o :: opened, _, _, _, h => by
      rw [closeNamed] at h
      dsimp only at h
      split at h
      · cases h
        exact List.subset_cons_self o opened
      · exact List.Subset.trans (closeNamed_subset h) (List.subset_cons_self o opened)

/-- A token that is taken leaves only places of the text to be remembered. -/
theorem Adds.stands (h : Adds config b token b') (htoken : Lies text token.span)
    (hb : b.Stands text) : b'.Stands text := by
  have hend {tag : TagSoFar} (htag : b.tag = some tag) (selfClosed : Bool) :
      ({ b with tag := none }.enter (tag.element selfClosed)).Stands text := by
    obtain ⟨hspan, -⟩ := hb.tag tag htag
    have hnone : Builder.Stands text { b with tag := none } := by
      refine ⟨?_, hb.opened⟩
      rintro tag ⟨⟩
    rw [Builder.enter]
    split
    · exact hnone.modifyChildren _
    · exact ⟨hnone.tag, List.forall_mem_cons.2 ⟨hspan, hb.opened⟩⟩
  cases h with
  | text => exact hb.modifyChildren _
  | comment => exact hb.modifyChildren _
  | rawEmpty => exact hb
  | raw => exact hb.modifyChildren _
  | openTag =>
      refine ⟨?_, hb.opened⟩
      rintro tag ⟨⟩
      exact ⟨htoken, List.forall_mem_nil _⟩
  | attributeName htag =>
      refine ⟨?_, hb.opened⟩
      rintro tag ⟨⟩
      obtain ⟨hspan, hattributes⟩ := hb.tag _ htag
      exact ⟨hspan, List.forall_mem_cons.2 ⟨htoken, hattributes⟩⟩
  | attributeValue htag hvalue =>
      refine ⟨?_, hb.opened⟩
      rintro tag ⟨⟩
      obtain ⟨-, last, earlier, hlast, rfl⟩ := addValue?_eq_some.1 hvalue
      obtain ⟨hspan, hattributes⟩ := hb.tag _ htag
      rw [hlast] at hattributes
      obtain ⟨hname, hearlier⟩ := List.forall_mem_cons.1 hattributes
      exact ⟨hspan, List.forall_mem_cons.2 ⟨hname, hearlier⟩⟩
  | tagEnd htag => exact hend htag false
  | tagSelfClose htag => exact hend htag true
  | closeVoid => exact hb.modifyChildren _
  | @closeNamed _ _ _ outer _ _ hclose =>
      have houter : Builder.Stands text { b with opened := outer } :=
        ⟨hb.tag, fun o ho => hb.opened o (closeNamed_subset hclose ho)⟩
      exact houter.modifyChildren _
  | stray => exact hb

theorem checkTagName_fault {name : String} {span : Span} {fault : Fault StructuralCause}
    (h : checkTagName name span = .error fault) : fault.span = span := by
  unfold checkTagName at h
  split at h
  · cases h
    rfl
  · split at h
    · cases h
      rfl
    · cases h

theorem Builder.Stands.endTag_fault {tag : TagSoFar} {selfClosed : Bool}
    {fault : Fault StructuralCause} (hb : b.Stands text) (htag : b.tag = some tag)
    (h : b.endTag tag selfClosed = .error fault) : Lies text fault.span := by
  rw [Builder.endTag] at h
  split at h
  · rename_i a hmissing
    cases h
    exact (hb.tag tag htag).2 a (List.mem_reverse.1 (List.mem_of_find?_eq_some hmissing))
  · cases h

/-- A token that is refused is at fault itself, or else an attribute of the tag that it ends. -/
theorem Builder.Stands.add_fault {fault : Fault StructuralCause} (hb : b.Stands text)
    (htoken : Lies text token.span) (h : b.add config token = .error fault) :
    Lies text fault.span := by
  unfold Builder.add at h
  split at h
  · cases h
  · cases h
  · split at h <;> cases h
  · rcases Except.bind_eq_error.1 h with hcheck | ⟨-, -, hpure⟩
    · rw [checkTagName_fault hcheck]
      exact htoken
    · cases hpure
  · rcases Except.bind_eq_error.1 h with hcheck | ⟨-, -, hclose⟩
    · rw [checkTagName_fault hcheck]
      exact htoken
    · rw [Builder.close] at hclose
      split at hclose
      · cases hclose
      · split at hclose
        · cases hclose
        · cases hclose
          exact htoken
  · cases h
  · split at h
    · cases h
    · cases h
      exact htoken
  · exact hb.endTag_fault ‹_› h
  · exact hb.endTag_fault ‹_› h
  · cases h

/-- Whatever tokens of the text come, places of it are remembered and reported. -/
theorem Builder.Stands.addAll (config : Config) {tokens : List Token} (hb : b.Stands text)
    (htokens : ∀ token ∈ tokens, Lies text token.span) :
    (b.addAll config tokens).Obeys (Builder.Stands text) fun fault => Lies text fault.span := by
  induction tokens generalizing b with
  | nil => exact hb
  | cons token tokens ih =>
      obtain ⟨htoken, htokens⟩ := List.forall_mem_cons.1 htokens
      rw [Builder.addAll_cons]
      refine Except.Obeys.bind (P := Builder.Stands text) ?_ fun next hnext => ih hnext htokens
      cases hadd : b.add config token with
      | ok next => exact (add_eq_ok.1 hadd).stands htoken hb
      | error fault => exact hb.add_fault htoken hadd

theorem Builder.Stands.finish_fault {fault : Fault StructuralCause} (hb : b.Stands text)
    (h : b.finish config = .error fault) : Lies text fault.span := by
  rw [Builder.finish] at h
  split at h
  · rename_i o _ hlast
    cases h
    exact hb.opened o (List.mem_of_getLast? hlast)
  · cases h

end

/-- A template that has no tree is at fault at characters of it. -/
theorem Document.read_fault {config : Config} {source : Source} {error : CompileError}
    (h : Document.read config source = .error error) : Lies source.chars error.span := by
  have hadd := (Builder.stands_start source.chars).addAll config (scan_lies source.chars)
  rw [Document.read, Document.ofTokens] at h
  split at h
  · rename_i fault hfault
    cases h
    rw [hfault] at hadd
    exact hadd
  · rename_i fault hfault
    cases h
    exact scanFrom_fault hfault (dropBytes?_zero _) trivial
  · rename_i b hb hnone
    rw [hb] at hadd
    split at h
    · cases h
    · rename_i fault hfinish
      cases h
      exact Builder.Stands.finish_fault hadd hfinish

end TypedTemplate.Markup
