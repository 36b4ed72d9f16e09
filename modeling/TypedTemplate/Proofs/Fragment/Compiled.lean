/-
# `TypedTemplate.Proofs.Fragment.Compiled` — where the parts of a fragment come from

`Fragment.Compiled c outer nodes scope f` says of every part of the fragment `f` what in the
nodes it was compiled from: each term is the one that an expression in a text or an
attribute there resolves to, in the scope of the place where that text or attribute stands,
and a fragment in a loop comes from a place in that loop.  So `scope` is at once the scope
that the parts of `f` were compiled in and the scope that the loops of the fragment around
`f` bind.

Everything that compiles is of this kind (`Template.compile_compiled`), and what is of use
later about compiled fragments is read off it: that they are typed, which of their values
are not escaped.

The walk through the nodes is made once, in `Compiler.Rules`: a property of pieces that holds
of each piece by the way in which it comes about holds of all pieces of the document.
-/
import TypedTemplate.Proofs.Fragment.Places

namespace TypedTemplate

open Markup

/-- The parts of a fragment, each with the place that it was compiled from. -/
inductive Fragment.Compiled (c : Compiler) (outer : Scope) (nodes : List Node) :
    Scope → Fragment → Prop where
  | static {scope : Scope} (content : String) : Compiled c outer nodes scope (.static content)
  /-- An expression in a text. -/
  | text {scope : Scope} {content : String} {span : Span} {e : Excerpt} {t : Term} :
      Stands c.config outer nodes scope (.text content span) →
      .code e ∈ Interpolation.parts span.start content.toList →
      Term.read c.source scope e = .ok t → t.type.isScalar = true →
      Compiled c outer nodes scope (.interpolation t c.config.escaping)
  /-- A value in place of a content; nothing but `html` leaves it as it is. -/
  | content {scope : Scope} {a : Attribute} {escaping : Text.Escaping} {t : Term} :
      a.Stands c.config outer nodes scope →
      (a.control? c.config = some .text ∧ escaping = c.config.escaping) ∨
        (a.control? c.config = some .html ∧ escaping = .disabled) →
      Term.read c.source scope a.excerpt = .ok t → t.type.isScalar = true →
      Compiled c outer nodes scope (.interpolation t escaping)
  /-- A dynamic attribute of the output. -/
  | attribute {scope : Scope} {a : Attribute} {name : String} {t : Term} :
      a.Stands c.config outer nodes scope → a.dynamic = true →
      c.config.directive? a.name = some name → Control.ofName? name = none →
      Term.read c.source scope a.excerpt = .ok t →
      Compiler.AttributeTy (booleanAttributes.contains name) t.type →
      Compiled c outer nodes scope
        (.attribute name t (booleanAttributes.contains name) c.config.escaping)
  | sequence {scope : Scope} {parts : List Fragment} :
      (∀ f ∈ parts, Compiled c outer nodes scope f) →
      Compiled c outer nodes scope (.sequence parts)
  /-- The body comes from inside the element, the list from outside. -/
  | loop {scope : Scope} {e : Element} {children : List Node} {a : Attribute} {head : Loop}
      {body : Fragment} :
      Stands c.config outer nodes scope (.element e children) →
      a ∈ e.attributes → a.control? c.config = some .loop → c.loopOf scope a = .ok head →
      Compiled c outer nodes (scope.bind head.name head.element) body →
      Compiled c outer nodes scope (.loop head body)
  | conditional {scope : Scope} {a : Attribute} {t : Term} {body : Fragment} :
      a.Stands c.config outer nodes scope → a.control? c.config = some .condition →
      Term.read c.source scope a.excerpt = .ok t → t.type = .bool →
      Compiled c outer nodes scope body →
      Compiled c outer nodes scope (.conditional t body)

/-! ## The normal form adds nothing but text and sequences -/

namespace Fragment

/-- The fragment is text. -/
def isStatic : Fragment → Bool
  | .static _ => true
  | _ => false

variable {P : Fragment → Prop}

/-- What is joined is text that is not empty, or one of the fragments. -/
theorem joinText_all (htext : ∀ content, content ≠ "" → P (.static content)) :
    ∀ (fs : List Fragment) (pending : String), (∀ f ∈ fs, f.isStatic = false → P f) →
      ∀ f ∈ joinText pending fs, P f := by
  have hpiece : ∀ pending : String, ∀ f ∈ textPiece pending, P f := by
    intro pending f hf
    rw [textPiece] at hf
    split at hf
    · cases hf
    · rename_i hpending
      rw [List.mem_singleton.1 hf]
      exact htext pending fun hempty => hpending (String.isEmpty_iff.2 hempty)
  intro fs
  induction fs with
  | nil => intro pending _; exact hpiece pending
  | cons f fs ih =>
      intro pending h
      obtain ⟨hf, hfs⟩ := List.forall_mem_cons.1 h
      have hother (hother : f.isStatic = false) :
          ∀ g ∈ textPiece pending ++ f :: joinText "" fs, P g :=
        List.forall_mem_append.2
          ⟨hpiece pending, List.forall_mem_cons.2 ⟨hf hother, ih "" hfs⟩⟩
      cases f with
      | static content => exact ih _ hfs
      | _ => exact hother rfl

theorem ofPieces_all (htext : ∀ content, P (.static content))
    (hsequence : ∀ parts, (∀ f ∈ parts, P f) → P (.sequence parts)) {fs : List Fragment}
    (h : ∀ f ∈ fs, P f) : P (ofPieces fs) := by
  have hjoin := joinText_all (fun content _ => htext content) fs "" fun f hf _ => h f hf
  unfold ofPieces
  split
  · rename_i only heq
    exact hjoin only (by simp [heq])
  · exact hsequence _ hjoin

end Fragment

/-! ## What is in a compiled fragment -/

namespace Fragment

theorem mem_walkAll {depth : Nat} {p : Nat × Fragment} {fs : List Fragment} :
    p ∈ walkAll depth fs ↔ ∃ f ∈ fs, p ∈ f.walk depth := by
  induction fs with
  | nil => simp [walkAll]
  | cons f fs ih => simp [walkAll, ih]

variable {c : Compiler} {outer scope : Scope} {nodes : List Node} {f : Fragment}

/-- What is in a compiled fragment was compiled as well. -/
theorem Compiled.walk (hf : f.Compiled c outer nodes scope) : ∀ {depth : Nat} {p : Nat × Fragment},
    p ∈ f.walk depth → ∃ inner, p.2.Compiled c outer nodes inner := by
  induction hf with
  | @static scope content =>
      intro depth p hp
      cases List.mem_singleton.1 hp
      exact ⟨scope, .static content⟩
  | text hstands hpart ht hscalar =>
      intro depth p hp
      cases List.mem_singleton.1 hp
      exact ⟨_, .text hstands hpart ht hscalar⟩
  | content hstands hasks ht hscalar =>
      intro depth p hp
      cases List.mem_singleton.1 hp
      exact ⟨_, .content hstands hasks ht hscalar⟩
  | «attribute» hstands hd hname hcontrol ht htype =>
      intro depth p hp
      cases List.mem_singleton.1 hp
      exact ⟨_, .attribute hstands hd hname hcontrol ht htype⟩
  | sequence hparts ih =>
      intro depth p hp
      rcases List.mem_cons.1 hp with rfl | hp
      · exact ⟨_, .sequence hparts⟩
      · obtain ⟨f, hf, hp⟩ := mem_walkAll.1 hp
        exact ih f hf hp
  | loop hstands ha hasks hhead hbody ih =>
      intro depth p hp
      rcases List.mem_cons.1 hp with rfl | hp
      · exact ⟨_, .loop hstands ha hasks hhead hbody⟩
      · exact ih hp
  | conditional hstands hasks ht htype hbody ih =>
      intro depth p hp
      rcases List.mem_cons.1 hp with rfl | hp
      · exact ⟨_, .conditional hstands hasks ht htype hbody⟩
      · exact ih hp

end Fragment

/-! ## How a piece comes about -/

namespace Compiler

variable {c : Compiler} {outer scope : Scope} {all : List Node}

/-- Pieces that begin with the start of the element's tag. -/
def TagFirst (e : Element) (pieces : List Fragment) : Prop :=
  ∃ rest, pieces = .static (Mark.openTag e.name).write :: rest

/-- One piece, the element's condition with its tag inside. -/
def ConditionOnly (c : Compiler) (scope : Scope) (e : Element) (pieces : List Fragment) : Prop :=
  ∃ a t inner, a ∈ e.attributes ∧ a.control? c.config = some .condition ∧
    c.conditionOf scope a = .ok t ∧ TagFirst e inner ∧ pieces = [.conditional t (.ofPieces inner)]

/-- One rule for each way in which a piece comes about, `P scope f` said of the pieces `f` that are
compiled in `scope`.  By these rules it holds of all pieces of nodes that stand in a document
(`nodesPieces_all`). -/
structure Rules (c : Compiler) (outer : Scope) (all : List Node) (P : Scope → Fragment → Prop) :
    Prop where
  static : ∀ (scope : Scope) (content : String), P scope (.static content)
  /-- An expression in a text. -/
  text : ∀ {scope : Scope} {content : String} {span : Span} {e : Excerpt} {t : Term},
    Stands c.config outer all scope (.text content span) →
    .code e ∈ Interpolation.parts span.start content.toList →
    Term.read c.source scope e = .ok t → t.type.isScalar = true →
    P scope (.interpolation t c.config.escaping)
  /-- A value in place of a content. -/
  content : ∀ {scope : Scope} {a : Attribute} {escaping : Text.Escaping} {t : Term},
    a.Stands c.config outer all scope →
    (a.control? c.config = some .text ∧ escaping = c.config.escaping) ∨
      (a.control? c.config = some .html ∧ escaping = .disabled) →
    Term.read c.source scope a.excerpt = .ok t → t.type.isScalar = true →
    P scope (.interpolation t escaping)
  /-- A dynamic attribute of the output. -/
  dynamic : ∀ {scope : Scope} {a : Attribute} {name : String} {t : Term},
    a.Stands c.config outer all scope → a.dynamic = true →
    c.config.directive? a.name = some name → Control.ofName? name = none →
    Term.read c.source scope a.excerpt = .ok t →
    AttributeTy (booleanAttributes.contains name) t.type →
    P scope (.attribute name t (booleanAttributes.contains name) c.config.escaping)
  /-- An element in its condition. -/
  conditional : ∀ {around scope : Scope} {e : Element} {children : List Node} {a : Attribute}
    {t : Term} {pieces : List Fragment},
    Stands c.config outer all around (.element e children) → e.Opens c.config around scope →
    a ∈ e.attributes → a.control? c.config = some .condition → c.conditionOf scope a = .ok t →
    TagFirst e pieces → (∀ f ∈ pieces, P scope f) → P scope (.conditional t (.ofPieces pieces))
  /-- An element in its loop, with its condition inside if it has one. -/
  loop : ∀ {scope : Scope} {e : Element} {children : List Node} {a : Attribute} {head : Loop}
    {pieces : List Fragment},
    Stands c.config outer all scope (.element e children) →
    a ∈ e.attributes → a.control? c.config = some .loop → c.loopOf scope a = .ok head →
    TagFirst e pieces ∨ ConditionOnly c (scope.bind head.name head.element) e pieces →
    (∀ f ∈ pieces, P (scope.bind head.name head.element) f) →
    P scope (.loop head (.ofPieces pieces))

namespace Rules

variable {P : Scope → Fragment → Prop}

theorem staticPieces_all (rules : Rules c outer all P) (marks : List Mark) :
    ∀ f ∈ staticPieces marks, P scope f := by
  intro f hf
  obtain ⟨mark, -, rfl⟩ := List.mem_map.1 hf
  exact rules.static scope _

theorem partsPieces_all (rules : Rules c outer all P) {content : String} {span : Span}
    (hnode : Stands c.config outer all scope (.text content span)) :
    ∀ {parts : List Interpolation.Part} {fs : List Fragment},
      parts ⊆ Interpolation.parts span.start content.toList → c.partsPieces scope parts = .ok fs →
        ∀ f ∈ fs, P scope f
  | [], fs, _, h => by
      simp only [partsPieces] at h
      cases h
      exact List.forall_mem_nil _
  | part :: parts, fs, hsub, h => by
      obtain ⟨pieces, more, hp, hm, rfl⟩ := partsPieces_cons_ok.1 h
      obtain ⟨hmem, hsub⟩ := List.cons_subset.1 hsub
      refine List.forall_mem_append.2 ⟨?_, rules.partsPieces_all hnode hsub hm⟩
      cases part with
      | plain cs =>
          rw [plain_ok.1 hp]
          exact List.forall_mem_singleton.2 (rules.static scope _)
      | code e =>
          obtain ⟨t, ht, hs, rfl⟩ := code_ok.1 hp
          exact List.forall_mem_singleton.2 (rules.text hnode hmem ht hs)
      | unterminated span => exact (unterminated_ok.1 hp).elim

theorem attributesPieces_all (rules : Rules c outer all P) :
    ∀ {as : List Attribute} {fs : List Fragment},
      (∀ a ∈ as, a.Stands c.config outer all scope) → c.attributesPieces scope as = .ok fs →
        ∀ f ∈ fs, P scope f
  | [], fs, _, h => by
      simp only [attributesPieces] at h
      cases h
      exact List.forall_mem_nil _
  | a :: as, fs, hstands, h => by
      obtain ⟨pieces, more, hp, hm, rfl⟩ := attributesPieces_cons_ok.1 h
      obtain ⟨ha, hstands⟩ := List.forall_mem_cons.1 hstands
      refine List.forall_mem_append.2 ⟨?_, rules.attributesPieces_all hstands hm⟩
      rcases attributePieces_ok hp with
        ⟨-, rfl⟩ | ⟨-, -, rfl⟩ | ⟨name, hd, hname, ⟨-, rfl⟩ | ⟨f, hcontrol, hf, rfl⟩⟩
      · exact rules.staticPieces_all _
      · exact List.forall_mem_nil _
      · exact List.forall_mem_nil _
      · obtain ⟨t, ht, htype, rfl⟩ := dynamicAttribute_ok.1 hf
        have hnone : Control.ofName? name = none := by simpa using hcontrol
        exact List.forall_mem_singleton.2 (rules.dynamic ha hd hname hnone ht htype)

section Element

variable {e : Element} {ds : Directives} {children : List Node}
  {compiled : Except ExprFault (List Fragment)} {fs : List Fragment}

theorem rawPieces_all (rules : Rules c outer all P) : ∀ f ∈ rawPieces children, P scope f := by
  intro f hf
  obtain ⟨node, -, hnode⟩ := List.mem_filterMap.1 hf
  cases node with
  | text content span => cases hnode; exact rules.static scope content
  | _ => simp at hnode

theorem bodyPieces_all (rules : Rules c outer all P) (hds : Directives.ofElement c.config e = .ok ds)
    (hstands : ∀ a ∈ e.attributes, a.Stands c.config outer all scope)
    (hc : isRawText e.name = false → ∀ fs, compiled = .ok fs → ∀ f ∈ fs, P scope f)
    (h : c.bodyPieces scope e ds children compiled = .ok fs) : ∀ f ∈ fs, P scope f := by
  rcases bodyPieces_ok h with
    ⟨a, escaping, t, hcontent, ht, hs, rfl⟩ | ⟨-, -, rfl⟩ | ⟨-, hraw, hcompiled⟩
  · obtain ⟨hmem, hasks⟩ := (Directives.content?_eq_some hds).1 hcontent
    exact List.forall_mem_singleton.2 (rules.content (hstands a hmem) hasks ht hs)
  · exact rules.rawPieces_all
  · exact hc hraw fs hcompiled

/-- An element gives its tag first. -/
theorem elementPieces_all (rules : Rules c outer all P)
    (hds : Directives.ofElement c.config e = .ok ds)
    (hstands : ∀ a ∈ e.attributes, a.Stands c.config outer all scope)
    (hc : isRawText e.name = false → ∀ fs, compiled = .ok fs → ∀ f ∈ fs, P scope f)
    (h : c.elementPieces scope e ds children compiled = .ok fs) :
    TagFirst e fs ∧ ∀ f ∈ fs, P scope f := by
  obtain ⟨attributes, rest, ha, rfl, hrest⟩ := elementPieces_ok h
  refine ⟨⟨attributes ++ rest, by rw [List.append_assoc]; rfl⟩, ?_⟩
  refine List.forall_mem_append.2 ⟨List.forall_mem_append.2
    ⟨rules.staticPieces_all _, rules.attributesPieces_all hstands ha⟩, ?_⟩
  rcases hrest with ⟨-, -, rfl⟩ | ⟨-, body, hb, rfl⟩
  · exact rules.staticPieces_all _
  · exact List.forall_mem_append.2 ⟨List.forall_mem_append.2
      ⟨rules.staticPieces_all _, rules.bodyPieces_all hds hstands hc hb⟩, rules.staticPieces_all _⟩

/-- An element gives its tag first, or its condition alone. -/
theorem conditionalPieces_all (rules : Rules c outer all P) {around : Scope}
    (hds : Directives.ofElement c.config e = .ok ds)
    (hnode : Stands c.config outer all around (.element e children))
    (hopens : e.Opens c.config around scope)
    (hc : isRawText e.name = false → ∀ fs, compiled = .ok fs → ∀ f ∈ fs, P scope f)
    (h : c.conditionalPieces scope e ds children compiled = .ok fs) :
    (TagFirst e fs ∨ ConditionOnly c scope e fs) ∧ ∀ f ∈ fs, P scope f := by
  have hstands (a : Attribute) (ha : a ∈ e.attributes) : a.Stands c.config outer all scope :=
    ⟨around, e, children, hnode, hopens, ha⟩
  rcases conditionalPieces_ok h with ⟨-, he⟩ | ⟨a, t, pieces, ha, ht, hp, rfl⟩
  · obtain ⟨htag, hall⟩ := rules.elementPieces_all hds hstands hc he
    exact ⟨Or.inl htag, hall⟩
  · obtain ⟨htag, hall⟩ := rules.elementPieces_all hds hstands hc hp
    obtain ⟨hmem, hasks⟩ := (Directives.get?_eq_some hds .condition).1 ha
    refine ⟨Or.inr ⟨a, t, pieces, hmem, hasks, ht, htag, rfl⟩, ?_⟩
    exact List.forall_mem_singleton.2 (rules.conditional hnode hopens hmem hasks ht htag hall)

end Element

mutual

theorem nodePieces_all (rules : Rules c outer all P) : ∀ (node : Node) (scope : Scope)
    {fs : List Fragment},
    (∀ inner n, Stands c.config scope [node] inner n → Stands c.config outer all inner n) →
      c.nodePieces scope node = .ok fs → ∀ f ∈ fs, P scope f
  | .text content span, scope, fs, hsub, h => by
      have hnode := hsub scope _ (.here (List.mem_singleton_self _))
      simp only [nodePieces] at h
      exact rules.partsPieces_all hnode (List.Subset.refl _) h
  | .comment content span, scope, fs, _, h => by
      simp only [nodePieces] at h
      cases h
      split
      · exact List.forall_mem_nil _
      · exact List.forall_mem_singleton.2 (rules.static scope content)
  | .element e children, scope, fs, hsub, h => by
      have hnode := hsub scope _ (.here (List.mem_singleton_self _))
      -- what holds inside the element holds whether or not it has a loop
      have hinside {ds : Directives} {inner : Scope} {pieces : List Fragment}
          (hds : Directives.ofElement c.config e = .ok ds) (hopens : e.Opens c.config scope inner)
          (hp : c.conditionalPieces inner e ds children (c.nodesPieces inner children) = .ok pieces) :
          (TagFirst e pieces ∨ ConditionOnly c inner e pieces) ∧ ∀ f ∈ pieces, P inner f := by
        refine rules.conditionalPieces_all hds hnode hopens (fun hraw gs hg => ?_) hp
        refine rules.nodesPieces_all children inner (fun deeper n hn => ?_) hg
        exact hsub deeper n (Stands.element_iff.2 (Or.inr ⟨hraw, inner, hopens, hn⟩))
      obtain ⟨ds, hds, ⟨hnone, hp⟩ | ⟨a, head, pieces, ha, hh, hp, rfl⟩⟩ := elementNode_ok h
      · exact (hinside hds ((opens_iff hds).2 (Or.inl ⟨hnone, rfl⟩)) hp).2
      · have hopens := (opens_iff hds).2 (Or.inr ⟨a, head, ha, hh, rfl⟩)
        obtain ⟨hmem, hasks⟩ := (Directives.get?_eq_some hds .loop).1 ha
        obtain ⟨hfirst, hall⟩ := hinside hds hopens hp
        exact List.forall_mem_singleton.2 (rules.loop hnode hmem hasks hh hfirst hall)

theorem nodesPieces_all (rules : Rules c outer all P) : ∀ (nodes : List Node) (scope : Scope)
    {fs : List Fragment},
    (∀ inner n, Stands c.config scope nodes inner n → Stands c.config outer all inner n) →
      c.nodesPieces scope nodes = .ok fs → ∀ f ∈ fs, P scope f
  | [], scope, fs, _, h => by
      simp only [nodesPieces] at h
      cases h
      exact List.forall_mem_nil _
  | node :: nodes, scope, fs, hsub, h => by
      obtain ⟨pieces, more, hp, hm, rfl⟩ := nodesPieces_cons_ok.1 h
      have hfirst := rules.nodePieces_all node scope
        (fun inner n hn => hsub inner n (Stands.cons_iff.2 (Or.inl hn))) hp
      have hrest := rules.nodesPieces_all nodes scope
        (fun inner n hn => hsub inner n (Stands.cons_iff.2 (Or.inr hn))) hm
      exact List.forall_mem_append.2 ⟨hfirst, hrest⟩

end

/-- The fragment of a document is the normal form of its pieces. -/
theorem compile_all {context : ObjectTy} {document : Document} {f : Fragment}
    (rules : Rules c ⟨context, []⟩ document.children P) (h : c.compile context document = .ok f) :
    ∃ fs, f = .ofPieces fs ∧ ∀ g ∈ fs, P ⟨context, []⟩ g := by
  simp only [compile, Except.bind_eq_ok, Except.pure_eq_ok] at h
  obtain ⟨fs, hfs, rfl⟩ := h
  exact ⟨fs, rfl, rules.nodesPieces_all _ _ (fun _ _ hn => hn) hfs⟩

end Rules

end Compiler

/-! ## What compiles -/

namespace Fragment

variable {c : Compiler} {outer : Scope} {nodes : List Node}

theorem ofPieces_compiled {scope : Scope} {fs : List Fragment}
    (h : ∀ f ∈ fs, Compiled c outer nodes scope f) : Compiled c outer nodes scope (.ofPieces fs) :=
  ofPieces_all .static (fun _ => .sequence) h

theorem compiled_rules : Compiler.Rules c outer nodes (Compiled c outer nodes) where
  static _ := .static
  text := .text
  content := .content
  dynamic := .attribute
  conditional hnode hopens hmem hasks ht _ hpieces := by
    obtain ⟨hread, htype⟩ := Compiler.conditionOf_ok.1 ht
    exact .conditional ⟨_, _, _, hnode, hopens, hmem⟩ hasks hread htype (ofPieces_compiled hpieces)
  loop hnode hmem hasks hhead _ hpieces := .loop hnode hmem hasks hhead (ofPieces_compiled hpieces)

end Fragment

/-- The fragment of a template that compiles, with the document that it was compiled from. -/
theorem Template.compile_compiled {config : Config} {source : Source} {context : ObjectTy}
    {t : Template} (h : Template.compile config source context = .ok t) :
    ∃ document, Document.parse config source = .ok document ∧
      t.fragment.Compiled ⟨config, source⟩ ⟨context, []⟩ document.children ⟨context, []⟩ := by
  obtain ⟨document, f, hread, hf, rfl⟩ := Template.compile_ok.1 h
  obtain ⟨fs, rfl, hfs⟩ := Fragment.compiled_rules.compile_all hf
  exact ⟨document, Except.mapError_eq_ok.2 hread, Fragment.ofPieces_compiled hfs⟩

end TypedTemplate
