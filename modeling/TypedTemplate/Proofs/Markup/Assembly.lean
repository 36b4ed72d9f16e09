/-
# `TypedTemplate.Proofs.Markup.Assembly` — the tree built on a stack that is indexed

A `Builder` keeps the open elements innermost first, and the attributes of a start tag last
first, so that what it needs is always at the head of a list.  An `Assembly` keeps both in the
order of the text, and looks them up by index: the innermost container is the last of a stack
that begins with the document itself, and the attribute that waits for a value is remembered by
its place.  `none` is an index that is out of range.

No index is: the document is never taken from the stack, and the place of an attribute is
remembered when it is added.  So an assembly does what the builder does (`Assembly.add_eq`,
`Assembly.finish_eq`).  Together with the cursor that finds the tokens it reads a template as
`Document.parse` does, from one byte offset and one index to the next
(`Assembly.parse_eq`).
-/
import TypedTemplate.Proofs.Markup.Adds
import TypedTemplate.Proofs.Markup.Cursor
import TypedTemplate.Proofs.Markup.Stamps

namespace TypedTemplate.Markup

open Text

/-! ## The stack -/

/-- A container that is open, with its children so far, last first; the document is the one without
an element. -/
structure Container where
  element : Option Element
  children : List Node

/-- The node of an element that ends. -/
def Container.close? (c : Container) (hasEndTag : Bool) : Option Node :=
  c.element.map fun e => .element { e with hasEndTag := hasEndTag } c.children.reverse

namespace Containers

/-- Changes the children of the container on the top. -/
def modifyTop (stack : List Container) (change : List Node → List Node) :
    Option (List Container) := do
  let top ← stack[stack.length - 1]?
  return stack.set (stack.length - 1) { top with children := change top.children }

/-- Takes the element on the top from the stack, as the last child of the container below it, and
says whether it is called `name`. -/
def pop (name : String) (stack : List Container) : Option (Bool × List Container) := do
  let top ← stack[stack.length - 1]?
  let e ← top.element
  let found := decide (e.name = name)
  let node ← top.close? found
  let rest ← modifyTop stack.dropLast (node :: ·)
  return (found, rest)

theorem length_modifyTop {stack rest : List Container} {change : List Node → List Node}
    (h : modifyTop stack change = some rest) : rest.length = stack.length := by
  obtain ⟨top, -, hrest⟩ := Option.bind_eq_some_iff.1 h
  cases hrest
  exact List.length_set

theorem length_pop {name : String} {stack rest : List Container} {found : Bool}
    (h : pop name stack = some (found, rest)) : rest.length = stack.length - 1 := by
  obtain ⟨top, -, h⟩ := Option.bind_eq_some_iff.1 h
  obtain ⟨e, -, h⟩ := Option.bind_eq_some_iff.1 h
  obtain ⟨node, -, h⟩ := Option.bind_eq_some_iff.1 h
  obtain ⟨rest', hrest, h⟩ := Option.bind_eq_some_iff.1 h
  cases h
  rw [length_modifyTop hrest, List.length_dropLast]

/-- Takes elements from the stack until one is called `name`; the document is left in any case. -/
def popTo (name : String) (stack : List Container) : Option (Option (List Container)) :=
  if 1 < stack.length then
    match _h : pop name stack with
    | none => none
    | some (true, rest) => some (some rest)
    | some (false, rest) => popTo name rest
  else some none
termination_by stack.length
decreasing_by
  rw [length_pop _h]
  omega

/-- The containers above the document, which they are all in. -/
def aboveRoot (stack : List Container) : Option (List Container) :=
  if 1 ≤ stack.length then some (stack.drop 1) else none

/-- The children of the first container, when all the others have ended. -/
def collapse : List Container → List Node
  | [] => []
  | [last] => last.children
  | outer :: inner :: rest =>
    ((⟨inner.element, collapse (inner :: rest)⟩ : Container).close? false).toList ++ outer.children

end Containers

/-! ## The assembly -/

/-- A start tag read up to some point, its attributes in order. -/
structure StartTag where
  name : String
  span : Span
  attributes : List Attribute := []
  /-- The place of the attribute that waits for a value. -/
  pending : Option Nat := none

namespace StartTag

/-- Takes an attribute's name. -/
def addName (tag : StartTag) (dynamic : Bool) (name : String) (span : Span) : StartTag :=
  let attributes := tag.attributes ++ [.ofName name dynamic span]
  { tag with attributes := attributes, pending := some (attributes.length - 1) }

/-- Gives a value to the attribute at a place. -/
def setValue (tag : StartTag) (i : Nat) (value : AttributeValue) : Option StartTag := do
  let a ← tag.attributes[i]?
  return { tag with attributes := tag.attributes.set i (a.setValue value), pending := none }

/-- The element that the tag begins. -/
def element (tag : StartTag) (selfClosed : Bool) : Element :=
  ⟨tag.name, tag.attributes, selfClosed, false, tag.span⟩

end StartTag

/-- A tree that is being built. -/
structure Assembly where
  /-- The document, and the open elements in it, innermost last. -/
  stack : List Container := [⟨none, []⟩]
  /-- The start tag that is being read, if any. -/
  tag : Option StartTag := none

namespace Assembly

open Containers

/-- Changes the children of the innermost container. -/
def modifyTop (a : Assembly) (change : List Node → List Node) :
    Option (Except (Fault StructuralCause) Assembly) := do
  let stack ← Containers.modifyTop a.stack change
  return .ok { a with stack := stack }

/-- Ends a start tag: the element becomes a child, or is put on the stack. -/
def endTag (a : Assembly) (tag : StartTag) (selfClosed : Bool) :
    Option (Except (Fault StructuralCause) Assembly) :=
  match tag.attributes.find? fun a => a.dynamic && a.text?.isNone with
  | some missing => some (structural missing.span (.missingDynamicValue missing.name))
  | none =>
    if selfClosed || isVoid tag.name then
      { a with tag := none }.modifyTop (.element (tag.element selfClosed) [] :: ·)
    else do
      -- its parent is looked up before the stack grows
      let _ ← a.stack[a.stack.length - 1]?
      return .ok ⟨a.stack ++ [⟨some (tag.element selfClosed), []⟩], none⟩

/-- Takes an end tag. -/
def close (a : Assembly) (name : String) (span : Span) :
    Option (Except (Fault StructuralCause) Assembly) :=
  if isVoid name then a.modifyTop (markVoidEnd name)
  else do
    match ← popTo name a.stack with
    | some stack => return .ok { a with stack := stack }
    | none => return structural span (.unmatchedEndTag name)

/-- Takes a token. -/
def add (config : Config) (a : Assembly) (token : Token) :
    Option (Except (Fault StructuralCause) Assembly) :=
  match token, a.tag with
  | .text content span, _ => a.modifyTop (.text content span :: ·)
  | .comment content span, _ => a.modifyTop (.comment content span :: ·)
  | .rawText content span, _ =>
    if content.isEmpty then some (.ok a) else a.modifyTop (.text content span :: ·)
  | .openTag name span, _ =>
    match checkTagName name span with
    | .error fault => some (.error fault)
    | .ok () => some (.ok { a with tag := some { name := name, span := span } })
  | .closeTag inner span, _ =>
    match checkTagName (closingName inner) span with
    | .error fault => some (.error fault)
    | .ok () => a.close (closingName inner) span
  | .attributeName name span, some tag =>
    some (.ok { a with tag := some (tag.addName (config.directive? name).isSome name span) })
  | .attributeValue value span, some tag =>
    match tag.pending with
    | none => some (structural span .valueWithoutName)
    | some i => do
      let tag ← tag.setValue i value
      return .ok { a with tag := some tag }
  | .tagEnd _, some tag => a.endTag tag false
  | .tagSelfClose _, some tag => a.endTag tag true
  | _, none => some (.ok a)

/-- The tree at the end of the text; the first element above the document is at fault if all have
to be closed. -/
def finish (config : Config) (a : Assembly) : Option (Except (Fault StructuralCause) Document) := do
  let unclosed := (← aboveRoot a.stack).filterMap Container.element
  match config.strictEndTags, unclosed.head? with
  | true, some e => return structural e.span (.neverClosed e.name)
  | _, _ => return .ok ⟨(collapse a.stack).reverse⟩

end Assembly

/-! ## An assembly is a builder in the order of the text -/

/-- The containers of a builder. -/
def containers (finished : List Node) : List OpenElement → List Container
  | [] => [⟨none, finished⟩]
  | o :: outer => containers finished outer ++ [⟨some o.element, o.children⟩]

/-- A start tag in the order of the text. -/
def TagSoFar.inOrder (tag : TagSoFar) : StartTag :=
  ⟨tag.name, tag.span, tag.attributes.reverse,
    if tag.awaiting then some (tag.attributes.length - 1) else none⟩

/-- A builder in the order of the text. -/
def Builder.assembly (b : Builder) : Assembly :=
  ⟨containers b.finished b.opened, b.tag.map TagSoFar.inOrder⟩

/-- Only an attribute waits for a value. -/
def TagSoFar.Waits (tag : TagSoFar) : Prop := tag.awaiting = true → tag.attributes ≠ []

namespace Containers

theorem length_containers (finished : List Node) (opened : List OpenElement) :
    (containers finished opened).length = opened.length + 1 := by
  induction opened with
  | nil => rfl
  | cons o outer ih => rw [containers, List.length_append, ih, List.length_cons]; rfl

theorem modifyTop_concat (init : List Container) (top : Container)
    (change : List Node → List Node) : modifyTop (init ++ [top]) change =
      some (init ++ [{ top with children := change top.children }]) := by
  simp [modifyTop]

/-- The container on the top is the one that the builder is in. -/
theorem modifyTop_containers (b : Builder) (change : List Node → List Node) :
    modifyTop (containers b.finished b.opened) change =
      some (containers (b.modifyChildren change).finished (b.modifyChildren change).opened) := by
  obtain ⟨finished, opened, tag⟩ := b
  cases opened with
  | nil => exact modifyTop_concat [] ⟨none, finished⟩ change
  | cons o outer =>
      exact modifyTop_concat (containers finished outer) ⟨some o.element, o.children⟩ change

theorem exists_top (finished : List Node) (opened : List OpenElement) : ∃ top,
    (containers finished opened)[(containers finished opened).length - 1]? = some top := by
  cases opened with
  | nil => exact ⟨⟨none, finished⟩, rfl⟩
  | cons o outer => exact ⟨⟨some o.element, o.children⟩, by simp [containers]⟩

theorem pop_containers (name : String) (finished : List Node) (o : OpenElement)
    (outer : List OpenElement) (b : Builder)
    (hb : b = (⟨finished, outer, none⟩ : Builder).append (o.close (decide (o.element.name = name)))) :
    pop name (containers finished (o :: outer)) =
      some (decide (o.element.name = name), containers b.finished b.opened) := by
  have htop : (containers finished (o :: outer))[(containers finished (o :: outer)).length - 1]? =
      some ⟨some o.element, o.children⟩ := by
    simp [containers]
  have hbelow : (containers finished (o :: outer)).dropLast = containers finished outer :=
    List.dropLast_concat
  have hnode : (⟨some o.element, o.children⟩ : Container).close? (decide (o.element.name = name)) =
      some (o.close (decide (o.element.name = name))) := rfl
  have hrest := modifyTop_containers ⟨finished, outer, none⟩
    (o.close (decide (o.element.name = name)) :: ·)
  simp only [pop, htop, hbelow, hnode, hrest, hb, Builder.append, Option.bind_eq_bind,
    Option.bind_some, Option.pure_def]

theorem popTo_of_pop {name : String} {stack rest : List Container} {found : Bool}
    (hlength : 1 < stack.length) (hpop : pop name stack = some (found, rest)) :
    popTo name stack = if found then some (some rest) else popTo name rest := by
  rw [popTo, if_pos hlength]
  split
  · rename_i hnone
    rw [hnone] at hpop
    cases hpop
  · rename_i hsome
    cases hsome.symm.trans hpop
    rfl
  · rename_i hsome
    cases hsome.symm.trans hpop
    rfl

/-- The elements are taken from the stack as the builder closes them; `inner` is the node that
ended just before. -/
theorem popTo_containers (name : String) (finished : List Node) :
    ∀ (opened : List OpenElement) (inner : List Node) (b : Builder),
      b = (⟨finished, opened, none⟩ : Builder).modifyChildren (inner ++ ·) →
      popTo name (containers b.finished b.opened) =
        some ((closeNamed name inner opened).map fun (node, outer) =>
          let b := (⟨finished, outer, none⟩ : Builder).append node
          containers b.finished b.opened)
  | [], inner, b, hb => by
      subst hb
      rw [popTo]
      rfl
  | o :: outer, inner, b, hb => by
      subst hb
      let last : OpenElement := { o with children := inner ++ o.children }
      show popTo name (containers finished (last :: outer)) = _
      have hlength : 1 < (containers finished (last :: outer)).length := by
        rw [length_containers, List.length_cons]
        omega
      rw [popTo_of_pop hlength (pop_containers name finished last outer _ rfl), closeNamed]
      by_cases hname : o.element.name = name
      · simp only [last, hname, decide_true, if_true, Option.map_some]
      · simp only [last, hname, decide_false, Bool.false_eq_true, if_false]
        exact popTo_containers name finished outer [last.close false] _ rfl

theorem collapse_concat (outer inner : Container) : ∀ init : List Container,
    collapse (init ++ [outer, inner]) =
      collapse (init ++ [{ outer with children := (inner.close? false).toList ++ outer.children }])
  | [] => rfl
  | [first] => rfl
  | first :: second :: rest => by
      have hrest := collapse_concat outer inner (second :: rest)
      simp only [List.cons_append] at hrest ⊢
      rw [collapse, collapse, hrest]

/-- The document when all that is open has ended. -/
theorem collapse_containers (finished : List Node) :
    ∀ (opened : List OpenElement) (inner : List Node) (b : Builder),
      b = (⟨finished, opened, none⟩ : Builder).modifyChildren (inner ++ ·) →
      collapse (containers b.finished b.opened) = closeAll inner opened ++ finished
  | [], inner, b, hb => by
      subst hb
      rfl
  | o :: outer, inner, b, hb => by
      subst hb
      let last : OpenElement := { o with children := inner ++ o.children }
      rw [closeAll, ← collapse_containers finished outer [last.close false] _ rfl]
      cases outer with
      | nil => rfl
      | cons o' outer =>
          show collapse (containers finished outer ++ [_] ++ [_]) = collapse (_ ++ [_])
          rw [List.append_assoc]
          exact collapse_concat ⟨some o'.element, o'.children⟩ ⟨some last.element, last.children⟩ _

theorem containers_eq (finished : List Node) (opened : List OpenElement) :
    containers finished opened =
      ⟨none, finished⟩ :: opened.reverse.map fun o => ⟨some o.element, o.children⟩ := by
  induction opened with
  | nil => rfl
  | cons o outer ih => rw [containers, ih]; simp

theorem aboveRoot_containers (finished : List Node) (opened : List OpenElement) :
    aboveRoot (containers finished opened) =
      some (opened.reverse.map fun o => ⟨some o.element, o.children⟩) := by
  rw [containers_eq, aboveRoot, if_pos (by simp)]
  rfl

end Containers

namespace Assembly

variable {config : Config} {b b' : Builder} {token : Token}

theorem modifyTop_eq (b : Builder) (change : List Node → List Node) :
    b.assembly.modifyTop change = some (.ok (b.modifyChildren change).assembly) := by
  rw [modifyTop, Builder.assembly, Containers.modifyTop_containers, Builder.assembly,
    Builder.modifyChildren_tag]
  rfl

theorem endTag_eq (b : Builder) (tag : TagSoFar) (selfClosed : Bool) :
    b.assembly.endTag tag.inOrder selfClosed =
      some ((b.endTag tag selfClosed).map Builder.assembly) := by
  rw [endTag, Builder.endTag]
  show (match tag.missingValue? with
    | some missing => _
    | none => _) = _
  cases tag.missingValue? with
  | some missing => rfl
  | none =>
      have helement : tag.inOrder.element selfClosed = tag.element selfClosed := rfl
      show (if selfClosed || isVoid tag.name then _ else _) =
        some (Except.ok (({ b with tag := none } : Builder).enter (tag.element selfClosed)).assembly)
      rw [Builder.enter, helement]
      have hname : (tag.element selfClosed).name = tag.name := rfl
      have hclosed : (tag.element selfClosed).selfClosed = selfClosed := rfl
      rw [hname, hclosed]
      split
      · exact modifyTop_eq { b with tag := none } (.element (tag.element selfClosed) [] :: ·)
      · obtain ⟨parent, hparent⟩ := Containers.exists_top b.finished b.opened
        rw [show b.assembly.stack = containers b.finished b.opened from rfl, hparent]
        rfl

theorem close_eq (b : Builder) (name : String) (span : Span) :
    b.assembly.close name span = some ((b.close name span).map Builder.assembly) := by
  rw [close, Builder.close]
  split
  · exact modifyTop_eq b (markVoidEnd name)
  · obtain ⟨finished, opened, tag⟩ := b
    have hpop := Containers.popTo_containers name finished opened [] ⟨finished, opened, none⟩
      (by cases opened <;> rfl)
    rw [show (Builder.assembly ⟨finished, opened, tag⟩).stack = containers finished opened from rfl,
      hpop]
    cases closeNamed name [] opened with
    | none => rfl
    | some found =>
        obtain ⟨node, outer⟩ := found
        cases outer <;> rfl

/-- The builder keeps that only an attribute waits. -/
theorem waits_of_adds (hb : ∀ tag ∈ b.tag, tag.Waits) (h : Adds config b token b') :
    ∀ tag ∈ b'.tag, tag.Waits := by
  cases h with
  | text | comment | raw | closeVoid | closeNamed => simpa using hb
  | rawEmpty | stray => exact hb
  | tagEnd | tagSelfClose => simp
  | openTag =>
      intro tag htag
      cases htag
      exact nofun
  | attributeName =>
      intro tag htag
      cases htag
      exact fun _ => List.cons_ne_nil _ _
  | attributeValue _ hvalue =>
      obtain ⟨-, last, earlier, -, rfl⟩ := addValue?_eq_some.1 hvalue
      intro tag htag
      cases htag
      exact nofun

theorem addName_inOrder (tag : TagSoFar) (dynamic : Bool) (name : String) (span : Span) :
    tag.inOrder.addName dynamic name span = (tag.addName dynamic name span).inOrder := by
  simp [StartTag.addName, TagSoFar.inOrder, TagSoFar.addName]

/-- The attribute that waits is the last. -/
theorem setValue_inOrder {tag : TagSoFar} {last : Attribute} {earlier : List Attribute}
    (hattributes : tag.attributes = last :: earlier) (value : AttributeValue) :
    tag.inOrder.setValue (tag.attributes.length - 1) value = some (TagSoFar.inOrder { tag with
      attributes := last.setValue value :: earlier, awaiting := false }) := by
  simp [StartTag.setValue, TagSoFar.inOrder, hattributes]

theorem add_eq (hb : ∀ tag ∈ b.tag, tag.Waits) :
    b.assembly.add config token = some ((b.add config token).map Builder.assembly) := by
  obtain ⟨finished, opened, tag⟩ := b
  cases token with
  | text content span => exact modifyTop_eq _ _
  | comment content span => exact modifyTop_eq _ _
  | rawText content span =>
      rw [add, Builder.add]
      split
      · rfl
      · exact modifyTop_eq _ _
  | openTag name span =>
      rw [add, Builder.add]
      cases checkTagName name span <;> rfl
  | closeTag inner span =>
      rw [add, Builder.add]
      cases checkTagName (closingName inner) span with
      | error fault => rfl
      | ok _ => exact close_eq _ _ _
  | attributeName name span =>
      cases tag with
      | none => rfl
      | some tag =>
          show some (Except.ok (⟨containers finished opened, some (tag.inOrder.addName _ _ _)⟩ :
            Assembly)) = _
          rw [addName_inOrder]
          rfl
  | attributeValue value span =>
      cases tag with
      | none => rfl
      | some tag =>
          have hwaits : tag.Waits := hb tag rfl
          obtain ⟨name, place, attributes, awaiting⟩ := tag
          cases awaiting with
          | false => rfl
          | true =>
              cases attributes with
              | nil => exact (hwaits rfl rfl).elim
              | cons last earlier =>
                  have hset := setValue_inOrder (rfl : (⟨name, place, last :: earlier, true⟩ :
                    TagSoFar).attributes = last :: earlier) value
                  show ((StartTag.setValue _ _ value).bind fun tag => some (Except.ok
                    (⟨containers finished opened, some tag⟩ : Assembly))) = _
                  rw [hset]
                  rfl
  | tagEnd span =>
      cases tag with
      | none => rfl
      | some tag => exact endTag_eq _ tag false
  | tagSelfClose span =>
      cases tag with
      | none => rfl
      | some tag => exact endTag_eq _ tag true

theorem finish_eq (config : Config) (b : Builder) :
    b.assembly.finish config = some (b.finish config) := by
  have hunclosed : ((b.opened.reverse.map fun o =>
      (⟨some o.element, o.children⟩ : Container)).filterMap Container.element).head? =
        b.opened.getLast?.map OpenElement.element := by
    rw [List.filterMap_map, ← List.head?_reverse, ← List.head?_map]
    exact congrArg List.head? (congrFun List.filterMap_eq_map _)
  have hcollapse : Containers.collapse (containers b.finished b.opened) =
      closeAll [] b.opened ++ b.finished := by
    refine Containers.collapse_containers b.finished b.opened [] ⟨b.finished, b.opened, none⟩ ?_
    cases b.opened <;> rfl
  rw [finish, show b.assembly.stack = containers b.finished b.opened from rfl,
    Containers.aboveRoot_containers, Builder.finish]
  simp only [Option.bind_eq_bind, Option.bind_some, hunclosed, hcollapse]
  cases config.strictEndTags <;> cases b.opened.getLast? <;> rfl

/-! ## Reading a template -/

/-- Reads on from an offset: a token, and what it makes of the tree. -/
def parseFrom (config : Config) (text : List Char) (a : Assembly) (mode : Mode) (pos : Nat) :
    Option (Except CompileError Document) :=
  match _h : Cursor.next mode text pos with
  | none => none
  | some .finished => (a.finish config).map fun result => result.mapError .structural
  | some (.failed fault) => some (.error (.lexical fault))
  | some (.found token mode' _) =>
    match a.add config token with
    | none => none
    | some (.error fault) => some (.error (.structural fault))
    | some (.ok a) => parseFrom config text a mode' token.span.stop
termination_by 2 * ((dropBytes? pos text).getD []).length + mode.weight
decreasing_by
  obtain ⟨cs, hcs, hnext, hrest⟩ := Cursor.next_found _h
  rw [hcs, hrest]
  exact next_decreases hnext

/-- Reads a template from one offset and one index to the next. -/
def parse (config : Config) (source : Source) : Option (Except Diagnostic Document) :=
  (parseFrom config source.chars {} .content 0).map fun result =>
    result.mapError source.diagnose

/-- The tree that some tokens make of a builder. -/
def complete (config : Config) (b : Builder) (ts : Tokens) : Except CompileError Document :=
  match b.addAll config ts.tokens, ts.fault with
  | .error fault, _ => .error (.structural fault)
  | .ok _, some fault => .error (.lexical fault)
  | .ok b, none => (b.finish config).mapError .structural

theorem complete_start (config : Config) (ts : Tokens) :
    complete config {} ts = Document.ofTokens config ts := by
  unfold complete Document.ofTokens
  cases Builder.addAll config {} ts.tokens with
  | error fault => rfl
  | ok b =>
      cases ts.fault with
      | some fault => rfl
      | none =>
          dsimp only
          cases b.finish config <;> rfl

/-- The first token that the builder does not take ends it. -/
theorem complete_cons (config : Config) (b : Builder) (token : Token) (ts : Tokens) :
    complete config b { ts with tokens := token :: ts.tokens } =
      match b.add config token with
      | .error fault => .error (.structural fault)
      | .ok b => complete config b ts := by
  unfold complete
  rw [Builder.addAll]
  cases b.add config token <;> rfl

section

variable {text : List Char} {mode mode' : Mode} {pos : Nat} {rest : List Char}

theorem parseFrom_finished {a : Assembly} (h : Cursor.next mode text pos = some .finished) :
    parseFrom config text a mode pos =
      (a.finish config).map fun result => result.mapError .structural := by
  rw [parseFrom]
  split <;> rename_i hnext <;> cases hnext.symm.trans h
  rfl

theorem parseFrom_failed {a : Assembly} {fault : Fault LexicalCause}
    (h : Cursor.next mode text pos = some (.failed fault)) :
    parseFrom config text a mode pos = some (.error (.lexical fault)) := by
  rw [parseFrom]
  split <;> rename_i hnext <;> cases hnext.symm.trans h
  rfl

theorem parseFrom_found {a : Assembly}
    (h : Cursor.next mode text pos = some (.found token mode' rest)) :
    parseFrom config text a mode pos =
      match a.add config token with
      | none => none
      | some (.error fault) => some (.error (.structural fault))
      | some (.ok a) => parseFrom config text a mode' token.span.stop := by
  rw [parseFrom]
  split <;> rename_i hnext <;> cases hnext.symm.trans h
  rfl

/-- From wherever the tokens are read on, and whatever has been built. -/
theorem parseFrom_eq {cs : List Char} (h : dropBytes? pos text = some cs)
    (hb : ∀ tag ∈ b.tag, tag.Waits) : parseFrom config text b.assembly mode pos =
      some (complete config b (scanFrom mode pos cs)) := by
  have hcursor {mode : Mode} {pos : Nat} {cs : List Char} {step : Step}
      (h : dropBytes? pos text = some cs) (hstep : next mode pos cs = step) :
      Cursor.next mode text pos = some step := by
    rw [Cursor.next_eq, h, Option.map_some, hstep]
  induction mode, pos, cs using scanFrom.induct generalizing b with
  | case1 mode pos cs hnext =>
      rw [parseFrom_finished (hcursor h hnext), scanFrom, hnext, finish_eq]
      rfl
  | case2 mode pos cs fault hnext =>
      rw [parseFrom_failed (hcursor h hnext), scanFrom, hnext]
      rfl
  | case3 mode pos cs token mode' rest hnext ih =>
      obtain ⟨-, -, -, hrest⟩ := Cursor.next_found (hcursor h hnext)
      rw [parseFrom_found (hcursor h hnext), scanFrom_found hnext, complete_cons, add_eq hb]
      cases hadd : b.add config token with
      | error fault => rfl
      | ok b' => exact ih hrest (waits_of_adds hb (add_eq_ok.1 hadd))

end

/-- No slice is out of range, nor is an index, and the tree is the same. -/
theorem parse_eq (config : Config) (source : Source) :
    parse config source = some (Document.parse config source) := by
  have hparse : parseFrom config source.chars {} .content 0 =
      some (complete config {} (scan source.chars)) :=
    parseFrom_eq (b := {}) (dropBytes?_zero source.chars) nofun
  rw [parse, hparse, complete_start]
  rfl

end Assembly

end TypedTemplate.Markup
