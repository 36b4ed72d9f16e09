/-
# `TypedTemplate.Proofs.Fragment.Checks` — which templates compile

`Node.Checks config scope node` says what is asked of a node that stands in `scope`, in
terms of the document and of the types of expressions: of an element, that its directives
can be given together, that its loop is one, and that what is inside that loop has the type
it needs there; of text, that each `#{` has its `}` and a scalar expression before it.
`Document.Checks` asks this of every node that stands anywhere in the document.

A document compiles if and only if it checks (`Compiler.compile_succeeds`).  What the
compiler leaves behind plays no part in that: a body that a directive replaces is asked for
as much as any other.
-/
import TypedTemplate.Proofs.Fragment.Places
import TypedTemplate.Proofs.Markup.WellFormed

namespace TypedTemplate

open Markup

/-! ## What is asked -/

/-- Plain text may be anything; an expression has to be a scalar and to end. -/
def Interpolation.Part.Checks (scope : Scope) : Interpolation.Part → Prop
  | .plain _ => True
  | .code e => ∃ τ, e.HasType scope τ ∧ τ.isScalar = true
  | .unterminated _ => False

namespace Markup

/-- The value of a dynamic attribute that is not a loop: of type `Bool` for a condition and for
a boolean attribute, of a scalar type for content and for any other attribute. -/
def Attribute.Checks (config : Config) (scope : Scope) (a : Attribute) : Prop :=
  ∀ name, a.dynamic = true → config.directive? a.name = some name → name ≠ "for" →
    ∃ τ, a.excerpt.HasType scope τ ∧
      if name = "if" ∨ name ∈ booleanAttributes then τ = .bool else τ.isScalar = true

/-- What is asked of an element in the scope around it. -/
structure Element.Checks (config : Config) (scope : Scope) (e : Element) : Prop where
  /-- No controlling directive is given twice. -/
  once : ∀ control, Directives.asking config control e.attributes ≤ 1
  /-- The content is not replaced by two values. -/
  content : Directives.asking config .text e.attributes = 0 ∨
    Directives.asking config .html e.attributes = 0
  /-- A tag that closes itself has no content to replace. -/
  bodied : e.selfClosed = true → Directives.asking config .text e.attributes = 0 ∧
    Directives.asking config .html e.attributes = 0
  /-- The loop is one, and inside it the other attributes check. -/
  inside : ∃ inner, e.Opens config scope inner ∧ ∀ a ∈ e.attributes, a.Checks config inner

/-- What is asked of a node in the scope where it stands. -/
def Node.Checks (config : Config) (scope : Scope) : Node → Prop
  | .text content span =>
    ∀ part ∈ Interpolation.parts span.start content.toList, part.Checks scope
  | .comment _ _ => True
  | .element e _ => e.Checks config scope

/-- All that stands in the document checks, each node in its scope. -/
def Document.Checks (config : Config) (context : ObjectTy) (document : Document) : Prop :=
  ∀ scope node, Stands config ⟨context, []⟩ document.children scope node →
    node.Checks config scope

end Markup

/-! ## Text and attributes -/

namespace Compiler

variable {c : Compiler} {scope : Scope}

theorem partPieces_succeeds {part : Interpolation.Part} :
    (c.partPieces scope part).Succeeds ↔ part.Checks scope := by
  cases part with
  | plain cs => simp [partPieces, Interpolation.Part.Checks]
  | code e =>
      rw [Interpolation.Part.Checks, ← Term.read_iff (P := fun τ => τ.isScalar = true)]
      constructor
      · rintro ⟨fs, hfs⟩
        obtain ⟨t, ht, hs, -⟩ := code_ok.1 hfs
        exact ⟨t, ht, hs⟩
      · rintro ⟨t, ht, hs⟩
        exact ⟨_, code_ok.2 ⟨t, ht, hs, rfl⟩⟩
  | unterminated span => simp [partPieces, refuse, Interpolation.Part.Checks]

theorem partsPieces_succeeds {parts : List Interpolation.Part} :
    (c.partsPieces scope parts).Succeeds ↔ ∀ part ∈ parts, part.Checks scope := by
  induction parts with
  | nil => simp [partsPieces]
  | cons part parts ih =>
      rw [List.forall_mem_cons, ← ih, ← partPieces_succeeds (c := c)]
      constructor
      · rintro ⟨fs, hfs⟩
        obtain ⟨pieces, more, hp, hm, -⟩ := partsPieces_cons_ok.1 hfs
        exact ⟨⟨pieces, hp⟩, more, hm⟩
      · rintro ⟨⟨pieces, hp⟩, more, hm⟩
        exact ⟨_, partsPieces_cons_ok.2 ⟨pieces, more, hp, hm, rfl⟩⟩

theorem dynamicAttribute_succeeds {name : String} {a : Attribute} :
    (c.dynamicAttribute scope name a).Succeeds ↔
      ∃ τ, a.excerpt.HasType scope τ ∧ AttributeTy (booleanAttributes.contains name) τ := by
  rw [← Term.read_iff]
  constructor
  · rintro ⟨f, hf⟩
    obtain ⟨t, ht, htype, -⟩ := dynamicAttribute_ok.1 hf
    exact ⟨t, ht, htype⟩
  · rintro ⟨t, ht, htype⟩
    exact ⟨_, dynamicAttribute_ok.2 ⟨t, ht, htype, rfl⟩⟩

theorem attributePieces_succeeds {a : Attribute} : (c.attributePieces scope a).Succeeds ↔
    ∀ name, a.dynamic = true → c.config.directive? a.name = some name →
      Control.ofName? name = none → (c.dynamicAttribute scope name a).Succeeds := by
  rw [attributePieces]
  split
  · rename_i hd
    cases hname : c.config.directive? a.name with
    | none => simp
    | some name =>
        cases hcontrol : Control.ofName? name with
        | some control => simp [hcontrol]
        | none => simp [hd, hcontrol]
  · rename_i hd
    simp [hd]

theorem attributesPieces_succeeds {as : List Attribute} :
    (c.attributesPieces scope as).Succeeds ↔ ∀ a ∈ as, (c.attributePieces scope a).Succeeds := by
  induction as with
  | nil => simp [attributesPieces]
  | cons a as ih =>
      rw [List.forall_mem_cons, ← ih]
      constructor
      · rintro ⟨fs, hfs⟩
        obtain ⟨pieces, more, hp, hm, -⟩ := attributesPieces_cons_ok.1 hfs
        exact ⟨⟨pieces, hp⟩, more, hm⟩
      · rintro ⟨⟨pieces, hp⟩, more, hm⟩
        exact ⟨_, attributesPieces_cons_ok.2 ⟨pieces, more, hp, hm, rfl⟩⟩

/-- The value of an attribute for what the compiler uses it for. -/
theorem attribute_checks_iff {a : Attribute} : a.Checks c.config scope ↔
    (c.attributePieces scope a).Succeeds ∧
      (a.control? c.config = some .condition → a.excerpt.HasType scope .bool) ∧
      (a.control? c.config = some .text ∨ a.control? c.config = some .html →
        ∃ τ, a.excerpt.HasType scope τ ∧ τ.isScalar = true) := by
  simp only [attributePieces_succeeds, dynamicAttribute_succeeds, Attribute.control?_eq_some,
    Control.name]
  constructor
  · intro h
    refine ⟨?_, ?_, ?_⟩
    · intro name hd hname hcontrol
      obtain ⟨τ, hτ, huse⟩ := h name hd hname (by rintro rfl; cases hcontrol)
      refine ⟨τ, hτ, ?_⟩
      have hif : name ≠ "if" := by rintro rfl; cases hcontrol
      simpa [AttributeTy, hif] using huse
    · rintro ⟨hd, hname⟩
      obtain ⟨τ, hτ, huse⟩ := h "if" hd hname (by decide)
      obtain rfl : τ = .bool := by simpa using huse
      exact hτ
    · rintro (⟨hd, hname⟩ | ⟨hd, hname⟩)
      · simpa [booleanAttributes] using h "text" hd hname (by decide)
      · simpa [booleanAttributes] using h "html" hd hname (by decide)
  · rintro ⟨hplain, hif, hcontent⟩ name hd hname hfor
    cases hcontrol : Control.ofName? name with
    | none =>
        obtain ⟨τ, hτ, huse⟩ := hplain name hd hname hcontrol
        have hne : name ≠ "if" := by rintro rfl; cases hcontrol
        exact ⟨τ, hτ, by simpa [AttributeTy, hne] using huse⟩
    | some control =>
        obtain rfl := Control.ofName?_eq_some.1 hcontrol
        cases control with
        | loop => exact (hfor rfl).elim
        | condition => exact ⟨.bool, hif ⟨hd, hname⟩, by simp [Control.name]⟩
        | text =>
            obtain ⟨τ, hτ, huse⟩ := hcontent (Or.inl ⟨hd, hname⟩)
            exact ⟨τ, hτ, by simpa [Control.name, booleanAttributes] using huse⟩
        | html =>
            obtain ⟨τ, hτ, huse⟩ := hcontent (Or.inr ⟨hd, hname⟩)
            exact ⟨τ, hτ, by simpa [Control.name, booleanAttributes] using huse⟩

/-! ## Elements -/

section

variable {e : Element} {ds : Directives} {children : List Node}
  {compiled : Except ExprFault (List Fragment)}

theorem bodyPieces_succeeds : (c.bodyPieces scope e ds children compiled).Succeeds ↔
    (∀ a escaping, ds.content? c.config = some (a, escaping) →
      ∃ τ, a.excerpt.HasType scope τ ∧ τ.isScalar = true) ∧
      (isRawText e.name = false → compiled.Succeeds) := by
  rw [bodyPieces]
  cases hcontent : ds.content? c.config with
  | none => cases hraw : isRawText e.name <;> simp
  | some found =>
      obtain ⟨a, escaping⟩ := found
      have hread : (∃ t, Term.read c.source scope a.excerpt = .ok t ∧ t.type.isScalar = true) ↔
          ∃ τ, a.excerpt.HasType scope τ ∧ τ.isScalar = true :=
        Term.read_iff (P := fun τ => τ.isScalar = true)
      have hscalar (t : Term) (rest : Except ExprFault (List Fragment)) :
          (checkScalar (.content a.name) a.valueSpan t >>= fun _ => rest).Succeeds ↔
            t.type.isScalar = true ∧ rest.Succeeds := by
        simp only [Except.succeeds_bind, checkScalar_ok, exists_and_left, exists_const]
      have hfound : (∀ b escaping', some (a, escaping) = some (b, escaping') →
          ∃ τ, b.excerpt.HasType scope τ ∧ τ.isScalar = true) ↔
          ∃ τ, a.excerpt.HasType scope τ ∧ τ.isScalar = true := by
        constructor
        · intro h
          exact h a escaping rfl
        · intro h b escaping' heq
          cases heq
          exact h
      rw [hfound, ← hread, Except.succeeds_bind]
      simp only [hscalar]
      cases hraw : isRawText e.name with
      | true => simp
      | false => simp [← and_assoc]

/-- Between a tag and its end tag, or in a tag that closes itself. -/
theorem elementPieces_succeeds : (c.elementPieces scope e ds children compiled).Succeeds ↔
    (∀ a ∈ e.attributes, (c.attributePieces scope a).Succeeds) ∧
      (e.selfClosed = true → ds.content? c.config = none) ∧
      (e.selfClosed = false → (c.bodyPieces scope e ds children compiled).Succeeds) := by
  have hrest : (c.restPieces scope e ds children compiled).Succeeds ↔
      (e.selfClosed = true → ds.content? c.config = none) ∧
      (e.selfClosed = false → (c.bodyPieces scope e ds children compiled).Succeeds) := by
    rw [restPieces]
    cases e.selfClosed with
    | true => cases ds.content? c.config <;> simp [refuse]
    | false => simp
  rw [← attributesPieces_succeeds, ← hrest, elementPieces]
  exact Except.succeeds_bind_and fun _ => by simp

theorem conditionOf_succeeds {a : Attribute} :
    (c.conditionOf scope a).Succeeds ↔ a.excerpt.HasType scope .bool := by
  have hread : (∃ t, Term.read c.source scope a.excerpt = .ok t ∧ t.type = .bool) ↔
      ∃ τ, a.excerpt.HasType scope τ ∧ τ = .bool := Term.read_iff (P := fun τ => τ = .bool)
  rw [exists_eq_right] at hread
  rw [← hread]
  simp only [Except.Succeeds, conditionOf_ok]

theorem conditionalPieces_succeeds : (c.conditionalPieces scope e ds children compiled).Succeeds ↔
    (∀ a, ds.condition = some a → a.excerpt.HasType scope .bool) ∧
      (c.elementPieces scope e ds children compiled).Succeeds := by
  rw [conditionalPieces]
  cases ds.condition with
  | none => simp
  | some a =>
      simp only [Option.some.injEq, forall_eq', ← conditionOf_succeeds (c := c)]
      exact Except.succeeds_bind_and fun _ => by simp

/-- What is inside the loop of an element, its children as far as they are compiled included. -/
theorem inside_succeeds (hds : Directives.ofElement c.config e = .ok ds) :
    (c.conditionalPieces scope e ds children compiled).Succeeds ↔
      (∀ a ∈ e.attributes, a.Checks c.config scope) ∧
      (e.selfClosed = true → Directives.asking c.config .text e.attributes = 0 ∧
        Directives.asking c.config .html e.attributes = 0) ∧
      (e.selfClosed = false → isRawText e.name = false → compiled.Succeeds) := by
  have hcondition : (∀ a, ds.condition = some a → a.excerpt.HasType scope .bool) ↔
      ∀ a ∈ e.attributes, a.control? c.config = some .condition →
        a.excerpt.HasType scope .bool := by
    refine forall_congr' fun a => ?_
    rw [show ds.condition = ds.get? .condition from rfl, Directives.get?_eq_some hds, and_imp]
  have hcontent : (∀ a escaping, ds.content? c.config = some (a, escaping) →
      ∃ τ, a.excerpt.HasType scope τ ∧ τ.isScalar = true) ↔
      ∀ a ∈ e.attributes, a.control? c.config = some .text ∨ a.control? c.config = some .html →
        ∃ τ, a.excerpt.HasType scope τ ∧ τ.isScalar = true := by
    simp only [Directives.content?_eq_some hds]
    constructor
    · rintro h a hmem (hasks | hasks)
      · exact h a _ ⟨hmem, Or.inl ⟨hasks, rfl⟩⟩
      · exact h a _ ⟨hmem, Or.inr ⟨hasks, rfl⟩⟩
    · rintro h a _ ⟨hmem, ⟨hasks, -⟩ | ⟨hasks, -⟩⟩
      · exact h a hmem (Or.inl hasks)
      · exact h a hmem (Or.inr hasks)
  have hnone : ds.content? c.config = none ↔
      Directives.asking c.config .text e.attributes = 0 ∧
        Directives.asking c.config .html e.attributes = 0 := by
    simp only [Option.eq_none_iff_forall_ne_some, ne_eq, Prod.forall,
      Directives.content?_eq_some hds, Directives.asking_eq_zero]
    constructor
    · intro h
      exact ⟨fun a hmem hasks => h a _ ⟨hmem, Or.inl ⟨hasks, rfl⟩⟩,
        fun a hmem hasks => h a _ ⟨hmem, Or.inr ⟨hasks, rfl⟩⟩⟩
    · rintro ⟨htext, hhtml⟩ a _ ⟨hmem, ⟨hasks, -⟩ | ⟨hasks, -⟩⟩
      · exact htext a hmem hasks
      · exact hhtml a hmem hasks
  simp only [conditionalPieces_succeeds, elementPieces_succeeds, bodyPieces_succeeds,
    attribute_checks_iff, hcondition, hcontent, hnone]
  constructor
  · rintro ⟨hif, hplain, hself, hbody⟩
    refine ⟨fun a hmem => ⟨hplain a hmem, hif a hmem, fun hasks => ?_⟩, hself, fun h => (hbody h).2⟩
    cases hs : e.selfClosed with
    | false => exact (hbody hs).1 a hmem hasks
    | true =>
        obtain ⟨htext, hhtml⟩ := hself hs
        rcases hasks with hasks | hasks
        · exact absurd hasks (Directives.asking_eq_zero.1 htext a hmem)
        · exact absurd hasks (Directives.asking_eq_zero.1 hhtml a hmem)
  · rintro ⟨hattributes, hself, hbody⟩
    exact ⟨fun a hmem => (hattributes a hmem).2.1, fun a hmem => (hattributes a hmem).1, hself,
      fun h => ⟨fun a hmem => (hattributes a hmem).2.2, hbody h⟩⟩

/-- An element compiles if it checks and its children do in the scope that it opens. -/
theorem elementNode_succeeds : (c.nodePieces scope (.element e children)).Succeeds ↔
    e.Checks c.config scope ∧ (e.selfClosed = false → isRawText e.name = false →
      ∀ inner, e.Opens c.config scope inner → (c.nodesPieces inner children).Succeeds) := by
  have hopens : (c.nodePieces scope (.element e children)).Succeeds ↔
      ∃ ds inner, Directives.ofElement c.config e = .ok ds ∧ e.Opens c.config scope inner ∧
        (c.conditionalPieces inner e ds children (c.nodesPieces inner children)).Succeeds := by
    rw [nodePieces, Except.succeeds_bind]
    constructor
    · rintro ⟨ds, hds, h⟩
      cases hloop : ds.loop with
      | none =>
          rw [hloop] at h
          exact ⟨ds, scope, hds, (opens_iff hds).2 (Or.inl ⟨hloop, rfl⟩), h⟩
      | some a =>
          rw [hloop] at h
          obtain ⟨head, hhead, h⟩ := Except.succeeds_bind.1 h
          exact ⟨ds, _, hds, (opens_iff hds).2 (Or.inr ⟨a, head, hloop, hhead, rfl⟩),
            by simpa using h⟩
    · rintro ⟨ds, inner, hds, hin, h⟩
      refine ⟨ds, hds, ?_⟩
      rcases (opens_iff hds).1 hin with ⟨hloop, rfl⟩ | ⟨a, head, hloop, hhead, rfl⟩
      · rw [hloop]
        exact h
      · rw [hloop]
        exact Except.succeeds_bind.2 ⟨head, hhead, by simpa using h⟩
  rw [hopens]
  constructor
  · rintro ⟨ds, inner, hds, hin, h⟩
    obtain ⟨hattributes, hself, hchildren⟩ := (inside_succeeds hds).1 h
    obtain ⟨honce, hcontent⟩ := Directives.ofElement_succeeds.1 ⟨ds, hds⟩
    refine ⟨⟨honce, hcontent, hself, inner, hin, hattributes⟩, fun hs hraw inner' hin' => ?_⟩
    rw [opens_unique hds hin' hin]
    exact hchildren hs hraw
  · rintro ⟨hchecks, hchildren⟩
    obtain ⟨ds, hds⟩ := Directives.ofElement_succeeds.2 ⟨hchecks.once, hchecks.content⟩
    obtain ⟨inner, hin, hattributes⟩ := hchecks.inside
    exact ⟨ds, inner, hds, hin, (inside_succeeds hds).2
      ⟨hattributes, hchecks.bodied, fun hs hraw => hchildren hs hraw inner hin⟩⟩

end

/-! ## Nodes -/

/-- All that stands among some nodes checks. -/
abbrev ChecksAll (config : Config) (scope : Scope) (nodes : List Node) : Prop :=
  ∀ inner node, Stands config scope nodes inner node → node.Checks config inner

mutual

theorem nodePieces_succeeds : ∀ (node : Node) (scope : Scope), node.WellFormed →
    ((c.nodePieces scope node).Succeeds ↔ ChecksAll c.config scope [node])
  | .text content span, scope, _ => by
      rw [nodePieces, partsPieces_succeeds]
      constructor
      · intro h inner node hstands
        obtain ⟨rfl, rfl⟩ := Stands.leaf hstands rfl
        exact h
      · intro h
        exact h scope _ (.here (List.mem_singleton_self _))
  | .comment content span, scope, _ => by
      rw [nodePieces]
      simp only [Except.succeeds_ok, true_iff]
      intro inner node hstands
      obtain ⟨rfl, rfl⟩ := Stands.leaf hstands rfl
      exact trivial
  | .element e children, scope, ⟨hfits, hchildren⟩ => by
      rw [elementNode_succeeds]
      constructor
      · rintro ⟨hchecks, hbelow⟩ inner node hstands
        rcases Stands.element_iff.1 hstands with ⟨rfl, rfl⟩ | ⟨hraw, opened, hopens, hnode⟩
        · exact hchecks
        · cases hself : e.selfClosed with
          | true =>
              rw [(hfits.alone hself).1] at hnode
              exact (Stands.not_nil hnode).elim
          | false =>
              have ih := nodesPieces_succeeds children opened hchildren
              exact ih.1 (hbelow hself hraw opened hopens) inner node hnode
      · intro h
        refine ⟨h scope _ (.here (List.mem_singleton_self _)), fun _ hraw opened hopens => ?_⟩
        refine (nodesPieces_succeeds children opened hchildren).2 fun inner node hnode => ?_
        exact h inner node (Stands.element_iff.2 (Or.inr ⟨hraw, opened, hopens, hnode⟩))

theorem nodesPieces_succeeds : ∀ (nodes : List Node) (scope : Scope), Node.WellFormedAll nodes →
    ((c.nodesPieces scope nodes).Succeeds ↔ ChecksAll c.config scope nodes)
  | [], scope, _ => by
      rw [nodesPieces]
      simp only [Except.succeeds_ok, true_iff]
      intro inner node hstands
      exact (Stands.not_nil hstands).elim
  | node :: rest, scope, ⟨hnode, hrest⟩ => by
      have ihnode := nodePieces_succeeds node scope hnode
      have ihrest := nodesPieces_succeeds rest scope hrest
      have hcons : (c.nodesPieces scope (node :: rest)).Succeeds ↔
          (c.nodePieces scope node).Succeeds ∧ (c.nodesPieces scope rest).Succeeds := by
        rw [nodesPieces]
        exact Except.succeeds_bind_and fun _ => by simp
      rw [hcons, ihnode, ihrest]
      constructor
      · rintro ⟨hnode, hrest⟩ inner n hstands
        rcases Stands.cons_iff.1 hstands with h | h
        · exact hnode inner n h
        · exact hrest inner n h
      · intro h
        exact ⟨fun inner n hn => h inner n (Stands.cons_iff.2 (Or.inl hn)),
          fun inner n hn => h inner n (Stands.cons_iff.2 (Or.inr hn))⟩

end

/-- A document without elements in impossible places compiles if and only if it checks. -/
theorem compile_succeeds {context : ObjectTy} {document : Document}
    (h : Node.WellFormedAll document.children) :
    (c.compile context document).Succeeds ↔ document.Checks c.config context := by
  have hnodes : (c.nodesPieces ⟨context, []⟩ document.children).Succeeds ↔
      document.Checks c.config context := nodesPieces_succeeds document.children ⟨context, []⟩ h
  rw [compile, ← hnodes]
  simp

end Compiler

/-! ## Templates -/

/-- Reading a document does not get as far as its expressions. -/
theorem Markup.Document.read_error {config : Config} {source : Source} {error : CompileError}
    (h : Document.read config source = .error error) :
    (∃ fault, error = .lexical fault) ∨ ∃ fault, error = .structural fault := by
  rw [Document.read, Document.ofTokens] at h
  split at h
  · cases h
    exact Or.inr ⟨_, rfl⟩
  · cases h
    exact Or.inl ⟨_, rfl⟩
  · split at h
    · cases h
    · cases h
      exact Or.inr ⟨_, rfl⟩

namespace Template

variable {config : Config} {source : Source} {context : ObjectTy}

theorem compile_of_parse_error {d : Diagnostic} (h : Document.parse config source = .error d) :
    Template.compile config source context = .error d ∧
      ((∃ fault, d.error = .lexical fault) ∨ ∃ fault, d.error = .structural fault) := by
  rw [Document.parse] at h
  cases hread : Document.read config source with
  | ok document =>
      rw [hread] at h
      cases h
  | error error =>
      rw [hread] at h
      cases h
      refine ⟨?_, Document.read_error hread⟩
      rw [Template.compile, check, hread]
      rfl

theorem compile_of_parse {document : Document} (h : Document.parse config source = .ok document) :
    ((Template.compile config source context).Succeeds ↔ document.Checks config context) ∧
      ∀ d, Template.compile config source context = .error d →
        ∃ fault, d = source.diagnose (.expression fault) := by
  have hread : Document.read config source = .ok document := Except.mapError_eq_ok.1 h
  have hdocument : (Compiler.compile ⟨config, source⟩ context document).Succeeds ↔
      document.Checks config context :=
    Compiler.compile_succeeds (c := ⟨config, source⟩) (Document.read_wellFormed hread)
  rw [← hdocument]
  cases hfragment : Compiler.compile ⟨config, source⟩ context document with
  | ok f =>
      have hok : Template.compile config source context = .ok ⟨source, context, f⟩ :=
        compile_ok.2 ⟨document, f, hread, hfragment, rfl⟩
      rw [hok]
      simp
  | error fault =>
      have herror : Template.compile config source context =
          .error (source.diagnose (.expression fault)) := by
        simp only [Template.compile, check, hread, bind, Except.bind, hfragment]
        rfl
      rw [herror]
      simp only [Except.not_succeeds_error, true_and]
      rintro d ⟨⟩
      exact ⟨fault, rfl⟩

/-- A template compiles if and only if its document parses and all of it checks; if it does not
parse, the fault is that of parsing, and if it parses and does not check, it is one of an
expression. -/
theorem compile_iff_checks (config : Config) (source : Source) (context : ObjectTy) :
    (∀ d, Document.parse config source = .error d →
      Template.compile config source context = .error d ∧
        ((∃ fault, d.error = .lexical fault) ∨ ∃ fault, d.error = .structural fault)) ∧
    ∀ document, Document.parse config source = .ok document →
      ((∃ t, Template.compile config source context = .ok t) ↔ document.Checks config context) ∧
        ∀ d, Template.compile config source context = .error d →
          ∃ fault, d = source.diagnose (.expression fault) :=
  ⟨fun _ h => compile_of_parse_error h, fun _ h => compile_of_parse h⟩

end Template

/-! ## A guest book -/

namespace Guests

/-- A guest book has an owner and the names of its guests. -/
def page : ObjectTy :=
  ((ObjectTy.empty "Guests").withField "owner" .string).withField "names" (.list .string)

/-- The guests one by one. -/
def listed : Source := .ofString "guests" "<li c:for='n:names' c:id='n'>#\x7bn\x7d for #\x7bowner\x7d</li>"

/-- The content is replaced, but there is a fault in it: the loop's name is not bound there. -/
def replaced : Source := .ofString "guests" "<ul c:text='owner'><li>#\x7bn\x7d</li></ul>"

/-- A tag without an end. -/
def torn : Source := .ofString "guests" "<ul c:text='owner'"

/-- The theorem at a template that does not parse, at one that checks and at one that does not. -/
theorem compile_iff_checks_guests :
    (∃ d, Document.parse {} torn = .error d ∧ Template.compile {} torn page = .error d) ∧
    (∃ document, Document.parse {} listed = .ok document ∧ document.Checks {} page) ∧
    ∃ document, Document.parse {} replaced = .ok document ∧ ¬ document.Checks {} page := by
  have htorn : (Document.parse {} torn).toBool = false := by decide +kernel
  have hlisted : (Template.compile {} listed page).toBool = true := by decide +kernel
  have hreplaced : (Document.parse {} replaced).toBool = true ∧
      (Template.compile {} replaced page).toBool = false := by decide +kernel
  refine ⟨?_, ?_, ?_⟩
  · cases hparse : Document.parse {} torn with
    | ok document =>
        rw [hparse] at htorn
        cases htorn
    | error d => exact ⟨d, rfl, ((Template.compile_iff_checks {} torn page).1 d hparse).1⟩
  · have hiff := Template.compile_iff_checks {} listed page
    cases hcompile : Template.compile {} listed page with
    | error d =>
        rw [hcompile] at hlisted
        cases hlisted
    | ok t =>
        cases hparse : Document.parse {} listed with
        | error d =>
            have hd := (hiff.1 d hparse).1
            rw [hcompile] at hd
            cases hd
        | ok document => exact ⟨document, rfl, (hiff.2 document hparse).1.1 ⟨t, hcompile⟩⟩
  · have hiff := Template.compile_iff_checks {} replaced page
    cases hparse : Document.parse {} replaced with
    | error d =>
        rw [hparse] at hreplaced
        cases hreplaced.1
    | ok document =>
        refine ⟨document, rfl, fun hchecks => ?_⟩
        obtain ⟨t, ht⟩ := (hiff.2 document hparse).1.2 hchecks
        rw [ht] at hreplaced
        cases hreplaced.2

end Guests

end TypedTemplate
