/-
# `TypedTemplate.Proofs.Markup.Writing` — a tree in writing

A tree is written mark by mark, without anything between two marks.  Two pairs of them do
not stay apart: a value without quotes takes the `/` of the `/>` after it, and an attribute
name that ends with `/` makes the `>` after it a `/>`.  Both can only stand at the end of a
start tag, so it can be seen from the elements of a tree whether there is such a pair
(`Document.apart_marks`).
-/
import Mathlib.Data.List.Chain
import TypedTemplate.Markup.Write

namespace TypedTemplate.Markup

/-! ## Marks in writing -/

/-- The characters of some marks in writing. -/
def written (ms : List Mark) : List Char := ms.flatMap fun m => m.write.toList

/-- The first mark in writing takes a part of the second, or the other way round. -/
def Mark.runsInto : Mark → Mark → Bool
  | .attributeValue .unquoted _, .tagSelfClose => true
  | .attributeName name, .tagEnd => name.toList.getLast? == some '/'
  | _, _ => false

/-- No mark runs into the next one. -/
def Apart (ms : List Mark) : Prop := ms.IsChain fun m m' => m.runsInto m' = false

theorem apart_append {ms ms' : List Mark} : Apart (ms ++ ms') ↔ Apart ms ∧ Apart ms' ∧
    ∀ m ∈ ms.getLast?, ∀ m' ∈ ms'.head?, m.runsInto m' = false :=
  List.isChain_append

/-- A mark that stands in a start tag. -/
def Mark.isTagPart : Mark → Bool
  | .attributeName _ | .attributeValue _ _ | .tagEnd | .tagSelfClose => true
  | _ => false

theorem Node.marksAll_eq (nodes : List Node) : Node.marksAll nodes = nodes.flatMap Node.marks := by
  induction nodes with
  | nil => rfl
  | cons n nodes ih => rw [Node.marksAll, ih, List.flatMap_cons]

theorem Node.marks_element (e : Element) (children : List Node) :
    (Node.element e children).marks =
      e.openMarks ++ children.flatMap Node.marks ++ e.closeMarks := by
  rw [Node.marks, Node.marksAll_eq]

theorem written_cons (m : Mark) (ms : List Mark) :
    written (m :: ms) = m.write.toList ++ written ms := List.flatMap_cons

theorem written_append (ms ms' : List Mark) : written (ms ++ ms') = written ms ++ written ms' :=
  List.flatMap_append

theorem Document.toList_write (d : Document) : d.write.toList = written d.marks := by
  have hjoin : ∀ ms : List Mark, (String.join (ms.map Mark.write)).toList = written ms := by
    intro ms
    simp [written, List.flatMap_map]
  exact hjoin d.marks

@[simp] theorem Mark.toList_text (content : String) :
    (Mark.text content).write.toList = content.toList := rfl

@[simp] theorem Mark.toList_comment (content : String) :
    (Mark.comment content).write.toList = content.toList := rfl

@[simp] theorem Mark.toList_openTag (name : String) :
    (Mark.openTag name).write.toList = '<' :: name.toList := by
  simp [Mark.write]

@[simp] theorem Mark.toList_attributeName (name : String) :
    (Mark.attributeName name).write.toList = ' ' :: name.toList := by
  simp [Mark.write]

@[simp] theorem Mark.toList_attributeValue (quote : Quote) (value : String) :
    (Mark.attributeValue quote value).write.toList =
      '=' :: (quote.mark.toList ++ value.toList ++ quote.mark.toList) := by
  simp [Mark.write]

@[simp] theorem Mark.toList_tagEnd : Mark.tagEnd.write.toList = ['>'] := rfl

@[simp] theorem Mark.toList_tagSelfClose : Mark.tagSelfClose.write.toList = ['/', '>'] := rfl

@[simp] theorem Mark.toList_closeTag (name : String) :
    (Mark.closeTag name).write.toList = '<' :: '/' :: (name.toList ++ ['>']) := by
  simp [Mark.write]

theorem written_rawText (body : List Char) (span : Span) :
    written (Token.rawText (String.ofList body) span).marks = body := by
  rw [Token.marks]
  split
  · rename_i hempty
    have hbody : (String.ofList body).toList = [] := by rw [String.isEmpty_iff.1 hempty]; rfl
    rw [String.toList_ofList] at hbody
    rw [hbody]
    rfl
  · simp [written]

/-- How the mark ends a start tag: `true` if the tag closes itself. -/
def Mark.ending? : Mark → Option Bool
  | .tagEnd => some false
  | .tagSelfClose => some true
  | _ => none

/-- How the start tags end, one by one. -/
def endings (ms : List Mark) : List Bool := ms.filterMap Mark.ending?

theorem endings_append (ms ms' : List Mark) : endings (ms ++ ms') = endings ms ++ endings ms' :=
  List.filterMap_append

/-! ## Start tags in writing -/

/-- The last attribute of an element runs into the end of its start tag. -/
def Element.tagRuns (e : Element) : Bool :=
  e.attributes.getLast?.any fun a =>
    match a.quote with
    | .bare => a.name.toList.getLast? = some '/' && !e.selfClosed
    | .valued quote => quote = .unquoted && e.selfClosed

/-- Nothing runs into a mark that does not end a start tag. -/
theorem Mark.runsInto_of_ending? {m m' : Mark} (h : m'.ending? = none) : m.runsInto m' = false := by
  unfold Mark.runsInto
  split
  · cases h
  · cases h
  · rfl

theorem apart_append_of_ending? {ms ms' : List Mark} (h : ∀ m ∈ ms'.head?, m.ending? = none) :
    Apart (ms ++ ms') ↔ Apart ms ∧ Apart ms' := by
  rw [apart_append]
  constructor
  · rintro ⟨hms, hms', -⟩
    exact ⟨hms, hms'⟩
  · rintro ⟨hms, hms'⟩
    exact ⟨hms, hms', fun m _ m' hm' => Mark.runsInto_of_ending? (h m' hm')⟩

theorem apart_of_ending? {ms : List Mark} (h : ∀ m ∈ ms, m.ending? = none) : Apart ms := by
  induction ms with
  | nil => exact .nil
  | cons m ms ih =>
      obtain ⟨hm, hms⟩ := List.forall_mem_cons.1 h
      rw [← List.singleton_append, apart_append_of_ending? fun m' hm' =>
        hms m' (List.mem_of_mem_head? hm')]
      exact ⟨.singleton m, ih hms⟩

theorem Attribute.ending?_marks (a : Attribute) : ∀ m ∈ a.marks, m.ending? = none := by
  intro m hm
  rw [Attribute.marks] at hm
  cases hquote : a.quote with
  | bare =>
      rw [hquote] at hm
      cases List.mem_singleton.1 hm
      rfl
  | valued quote =>
      rw [hquote] at hm
      rcases List.mem_cons.1 hm with rfl | hm
      · rfl
      · cases List.mem_singleton.1 hm
        rfl

/-- A start tag stays apart if its last attribute does not run into its end. -/
theorem Element.apart_openMarks (e : Element) : Apart e.openMarks ↔ e.tagRuns = false := by
  have hparts : ∀ m ∈ Mark.openTag e.name :: e.attributes.flatMap Attribute.marks,
      m.ending? = none := by
    refine List.forall_mem_cons.2 ⟨rfl, ?_⟩
    intro m hm
    obtain ⟨a, -, hm⟩ := List.mem_flatMap.1 hm
    exact a.ending?_marks m hm
  have hend : e.tagRuns = false ↔
      ∀ m ∈ (Mark.openTag e.name :: e.attributes.flatMap Attribute.marks).getLast?,
        m.runsInto (if e.selfClosed then .tagSelfClose else .tagEnd) = false := by
    rw [Element.tagRuns]
    rcases List.eq_nil_or_concat' e.attributes with hnil | ⟨earlier, a, ha⟩
    · rw [hnil]
      refine iff_of_true rfl ?_
      rintro m ⟨⟩
      rfl
    · have hlast : (Mark.openTag e.name :: e.attributes.flatMap Attribute.marks).getLast? =
          a.marks.getLast? := by
        have hne : a.marks ≠ [] := List.cons_ne_nil _ _
        rw [ha, List.flatMap_append, List.flatMap_singleton, ← List.cons_append,
          List.getLast?_append_of_ne_nil _ hne]
      rw [hlast, ha, List.getLast?_concat, Option.any_some, Attribute.marks]
      cases a.quote with
      | bare => cases e.selfClosed <;> simp [Mark.runsInto]
      | valued quote => cases quote <;> cases e.selfClosed <;> simp [Mark.runsInto]
  rw [Element.openMarks, ← List.cons_append, apart_append, hend]
  constructor
  · rintro ⟨-, -, hlast⟩ m hm
    exact hlast m hm _ rfl
  · intro hlast
    refine ⟨apart_of_ending? hparts, .singleton _, ?_⟩
    rintro m hm m' ⟨⟩
    exact hlast m hm

theorem Element.apart_closeMarks (e : Element) : Apart e.closeMarks := by
  rw [Element.closeMarks]
  split
  · exact .singleton _
  · exact .nil

/-- Markup does not begin with the end of a start tag. -/
theorem Node.ending?_head (nodes : List Node) :
    ∀ m ∈ (Node.marksAll nodes).head?, m.ending? = none := by
  cases nodes with
  | nil =>
      intro m hm
      cases hm
  | cons n nodes =>
      cases n with
      | text content span =>
          rintro m ⟨⟩
          rfl
      | comment content span =>
          rintro m ⟨⟩
          rfl
      | element e children =>
          rintro m ⟨⟩
          rfl

theorem Element.ending?_closeMarks (e : Element) : ∀ m ∈ e.closeMarks.head?, m.ending? = none := by
  rw [Element.closeMarks]
  split
  · rintro m ⟨⟩
    rfl
  · intro m hm
    cases hm

mutual

theorem Node.apart_marks : ∀ (depth : Nat) (node : Node), Apart node.marks ↔
    ∀ below ∈ node.walk depth, ∀ e ∈ below.2.element?, e.tagRuns = false
  | depth, .text content span => by
      refine iff_of_true (.singleton _) ?_
      intro below hbelow e he
      cases List.mem_singleton.1 hbelow
      cases he
  | depth, .comment content span => by
      refine iff_of_true (.singleton _) ?_
      intro below hbelow e he
      cases List.mem_singleton.1 hbelow
      cases he
  | depth, .element e children => by
      rw [Node.marks, apart_append_of_ending? e.ending?_closeMarks,
        apart_append_of_ending? (Node.ending?_head children), e.apart_openMarks,
        Node.apart_marksAll (depth + 1) children, Node.walk, List.forall_mem_cons]
      constructor
      · rintro ⟨⟨he, hbelow⟩, -⟩
        refine ⟨?_, hbelow⟩
        rintro e' ⟨⟩
        exact he
      · rintro ⟨he, hbelow⟩
        exact ⟨⟨he e rfl, hbelow⟩, e.apart_closeMarks⟩

theorem Node.apart_marksAll : ∀ (depth : Nat) (nodes : List Node), Apart (Node.marksAll nodes) ↔
    ∀ below ∈ Node.walkAll depth nodes, ∀ e ∈ below.2.element?, e.tagRuns = false
  | depth, [] => by
      exact iff_of_true .nil fun below hbelow => nomatch hbelow
  | depth, node :: rest => by
      rw [Node.marksAll, apart_append_of_ending? (Node.ending?_head rest),
        Node.apart_marks depth node, Node.apart_marksAll depth rest, Node.walkAll,
        List.forall_mem_append]

end

/-- A tree stays apart in writing if its start tags do. -/
theorem Document.apart_marks (d : Document) : Apart d.marks ↔
    ∀ below ∈ d.descendants, ∀ e ∈ below.2.element?, e.tagRuns = false :=
  Node.apart_marksAll 0 d.children

end TypedTemplate.Markup
