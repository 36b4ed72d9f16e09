/-
# `TypedTemplate.Proofs.Fragment.Places` — the scope of every place in a document

The names that an expression may use are those of the loops around it, the innermost
first, over the fields of the context.  An element's own loop is around its children and
its attributes, but not around the loop's list.  `Element.Opens config outer e inner` says
that the element `e`, standing in the scope `outer`, has the scope `inner` inside it, and
`Stands config outer nodes scope node` that `node` is one of `nodes` or below one of them,
and stands in `scope` if the others stand in `outer`.  Both speak of the document alone.

What is in a raw text element is not markup, so nothing stands there.
-/
import TypedTemplate.Proofs.Expr.Typing
import TypedTemplate.Proofs.Fragment.Directives
import TypedTemplate.Proofs.Fragment.Steps

namespace TypedTemplate

open Markup

namespace Markup

/-- The attribute's value is a loop that binds `name` to items of a type. -/
def Attribute.Loops (scope : Scope) (a : Attribute) (name : String) (τ : Ty) : Prop :=
  ∃ header, LoopHeader.read a.excerpt = .ok header ∧ header.name = name ∧
    header.list.HasType scope (.list τ)

/-- The scope inside an element that stands in the scope `outer`. -/
inductive Element.Opens (config : Config) (outer : Scope) (e : Element) : Scope → Prop where
  /-- Without a loop it is the same. -/
  | plain : (∀ a ∈ e.attributes, a.control? config ≠ some .loop) → Opens config outer e outer
  /-- A loop adds its name; its list is looked at outside. -/
  | loop {a : Attribute} {name : String} {τ : Ty} :
      a ∈ e.attributes → a.control? config = some .loop → a.Loops outer name τ →
      Opens config outer e (outer.bind name τ)

/-- The node is one of `nodes`, which stand in `outer`, or below one of them, and stands in
`scope`. -/
inductive Stands (config : Config) : Scope → List Node → Scope → Node → Prop where
  | here {outer : Scope} {nodes : List Node} {node : Node} :
      node ∈ nodes → Stands config outer nodes outer node
  | inside {outer inner scope : Scope} {nodes children : List Node} {e : Element} {node : Node} :
      .element e children ∈ nodes → isRawText e.name = false → e.Opens config outer inner →
      Stands config inner children scope node → Stands config outer nodes scope node

/-- The attribute is one of an element, and `scope` is the scope inside that element. -/
def Attribute.Stands (config : Config) (outer : Scope) (nodes : List Node) (scope : Scope)
    (a : Attribute) : Prop :=
  ∃ around e children, Markup.Stands config outer nodes around (.element e children) ∧
    e.Opens config around scope ∧ a ∈ e.attributes

namespace Stands

variable {config : Config} {outer scope : Scope} {nodes : List Node} {node : Node}

theorem mono {more : List Node} (hsub : nodes ⊆ more) (h : Stands config outer nodes scope node) :
    Stands config outer more scope node := by
  cases h with
  | here hmem => exact .here (hsub hmem)
  | inside hmem hraw hopens hinside => exact .inside (hsub hmem) hraw hopens hinside

theorem not_nil : ¬ Stands config outer [] scope node := by
  intro h
  cases h with
  | here hmem => cases hmem
  | inside hmem => cases hmem

theorem cons_iff {first : Node} {rest : List Node} :
    Stands config outer (first :: rest) scope node ↔
      Stands config outer [first] scope node ∨ Stands config outer rest scope node := by
  constructor
  · intro h
    cases h with
    | here hmem =>
        rcases List.mem_cons.1 hmem with rfl | hrest
        · exact Or.inl (.here (List.mem_singleton_self _))
        · exact Or.inr (.here hrest)
    | inside hmem hraw hopens hinside =>
        rcases List.mem_cons.1 hmem with rfl | hrest
        · exact Or.inl (.inside (List.mem_singleton_self _) hraw hopens hinside)
        · exact Or.inr (.inside hrest hraw hopens hinside)
  · rintro (h | h)
    · exact h.mono (by simp)
    · exact h.mono (List.subset_cons_self first rest)

/-- Nothing stands in a node that is not an element. -/
theorem leaf {first : Node} (h : Stands config outer [first] scope node)
    (hleaf : first.element? = none) : node = first ∧ scope = outer := by
  cases h with
  | here hmem => exact ⟨List.mem_singleton.1 hmem, rfl⟩
  | inside hmem =>
      cases List.mem_singleton.1 hmem
      cases hleaf

theorem element_iff {e : Element} {children : List Node} :
    Stands config outer [.element e children] scope node ↔
      (node = .element e children ∧ scope = outer) ∨ (isRawText e.name = false ∧
        ∃ inner, e.Opens config outer inner ∧ Stands config inner children scope node) := by
  constructor
  · intro h
    cases h with
    | here hmem => exact Or.inl ⟨List.mem_singleton.1 hmem, rfl⟩
    | inside hmem hraw hopens hinside =>
        cases List.mem_singleton.1 hmem
        exact Or.inr ⟨hraw, _, hopens, hinside⟩
  · rintro (⟨rfl, rfl⟩ | ⟨hraw, inner, hopens, hinside⟩)
    · exact .here (List.mem_singleton_self _)
    · exact .inside (List.mem_singleton_self _) hraw hopens hinside

end Stands

end Markup

/-! ## The scope that a loop opens -/

variable {c : Compiler} {scope inner : Scope}

/-- A loop is compiled exactly if the attribute's value is one. -/
theorem Compiler.loopOf_iff {a : Attribute} {name : String} {τ : Ty} :
    (∃ head, c.loopOf scope a = .ok head ∧ head.name = name ∧ head.element = τ) ↔
      a.Loops scope name τ := by
  constructor
  · rintro ⟨head, hhead, rfl, rfl⟩
    obtain ⟨header, hread, hname, hlist, htype⟩ := loopOf_ok.1 hhead
    exact ⟨header, hread, hname, Expr.resolve_iff.1 ⟨_, hlist, htype⟩⟩
  · rintro ⟨header, hread, rfl, hlist⟩
    obtain ⟨list, hresolve, htype⟩ : ∃ t, header.list.resolve c.source scope = .ok t ∧
      t.type = .list τ := Expr.resolve_iff.2 hlist
    exact ⟨⟨header.name, τ, list⟩, loopOf_ok.2 ⟨header, hread, rfl, hresolve, htype⟩, rfl, rfl⟩

/-- The scope inside an element, once its directives are known. -/
theorem Compiler.opens_iff {e : Element} {ds : Directives}
    (hds : Directives.ofElement c.config e = .ok ds) : e.Opens c.config scope inner ↔
      (ds.loop = none ∧ inner = scope) ∨ ∃ a head, ds.loop = some a ∧
        c.loopOf scope a = .ok head ∧ inner = scope.bind head.name head.element := by
  have hasks {a : Attribute} : ds.loop = some a ↔
      a ∈ e.attributes ∧ a.control? c.config = some .loop :=
    Directives.get?_eq_some hds .loop
  constructor
  · intro h
    cases h with
    | plain hnone =>
        refine Or.inl ⟨?_, rfl⟩
        rw [Option.eq_none_iff_forall_ne_some]
        intro a ha
        exact hnone a (hasks.1 ha).1 (hasks.1 ha).2
    | @loop a name τ hmem hcontrol hloops =>
        obtain ⟨head, hhead, rfl, rfl⟩ : ∃ head, c.loopOf scope a = .ok head ∧
          head.name = name ∧ head.element = τ := loopOf_iff.2 hloops
        exact Or.inr ⟨a, head, hasks.2 ⟨hmem, hcontrol⟩, hhead, rfl⟩
  · rintro (⟨hnone, rfl⟩ | ⟨a, head, ha, hhead, rfl⟩)
    · refine .plain fun a hmem hcontrol => ?_
      rw [hasks.2 ⟨hmem, hcontrol⟩] at hnone
      cases hnone
    · obtain ⟨hmem, hcontrol⟩ := hasks.1 ha
      exact .loop hmem hcontrol (loopOf_iff.1 ⟨head, hhead, rfl, rfl⟩)

/-- An element that has directives opens one scope at most. -/
theorem Compiler.opens_unique {e : Element} {ds : Directives} {inner' : Scope}
    (hds : Directives.ofElement c.config e = .ok ds) (h : e.Opens c.config scope inner)
    (h' : e.Opens c.config scope inner') : inner = inner' := by
  rcases (opens_iff hds).1 h with ⟨hnone, rfl⟩ | ⟨a, head, ha, hhead, rfl⟩
  · rcases (opens_iff hds).1 h' with ⟨-, rfl⟩ | ⟨a, _, ha, -, -⟩
    · rfl
    · rw [hnone] at ha
      cases ha
  · rcases (opens_iff hds).1 h' with ⟨hnone, -⟩ | ⟨a', head', ha', hhead', rfl⟩
    · rw [hnone] at ha
      cases ha
    · rw [ha] at ha'
      cases ha'
      rw [hhead] at hhead'
      cases hhead'
      rfl

end TypedTemplate
