/-
# `TypedTemplate.Proofs.Fragment.Faults` — a fault in a template is about characters of it

A document is compiled node by node, and what is refused is an expression, a directive or the
value of one.  The tree remembers where all of them stood, and in a tree that was read from a
text the characters are there (`Document.spots_faithful`).  So whatever is refused while it is
compiled covers characters of the text (`Compiler.nodesPieces_faultLies`), as what is refused before
there is a tree does.
-/
import TypedTemplate.Proofs.Expr.Faults
import TypedTemplate.Proofs.Fragment.Excerpts
import TypedTemplate.Proofs.Markup.Faults

namespace TypedTemplate

open Markup Text

variable {text : List Char}

/-! ## Attributes -/

/-- The text has the name of the attribute and its value where the attribute says. -/
structure Markup.Attribute.Placed (text : List Char) (a : Attribute) : Prop where
  shaped : a.Shaped
  spots : ∀ spot ∈ a.spots, slice? text spot.span = some spot.chars

namespace Markup.Attribute.Placed

variable {a : Attribute}

theorem span (h : a.Placed text) : Lies text a.span := ⟨_, h.spots _ List.mem_cons_self⟩

theorem valueSpan (h : a.Placed text) : Lies text a.valueSpan := by
  rw [Attribute.valueSpan]
  cases hspan : a.valueSpan? with
  | some span => exact ⟨_, h.spots _ (h.shaped.mem_spots hspan)⟩
  | none => exact h.span

theorem excerpt (h : a.Placed text) : slice? text a.excerpt.span = some a.excerpt.chars := by
  obtain ⟨spot, hspot, hwithin⟩ := h.shaped.excerpt_within
  exact hwithin.slice (h.spots spot hspot)

end Markup.Attribute.Placed

namespace Directives

variable {config : Config}

theorem gather_faultLies (config : Config) (element : String) {attributes : List Attribute}
    (h : ∀ a ∈ attributes, Lies text a.span) (ds : Directives) :
    FaultLies text (gather config element ds attributes) := by
  induction attributes generalizing ds with
  | nil => exact .ok ds
  | cons a rest ih =>
      obtain ⟨ha, hrest⟩ := List.forall_mem_cons.1 h
      rw [gather]
      split
      · exact ih hrest ds
      · split
        · exact .refuse ha _
        · exact ih hrest _

/-- Directives that do not go together are reported at the attribute that gives one of them. -/
theorem ofElement_faultLies (config : Config) {e : Element}
    (h : ∀ a ∈ e.attributes, Lies text a.span) : FaultLies text (ofElement config e) := by
  refine (gather_faultLies config e.name h {}).eq_ok.bind fun ds hds => ?_
  split
  · rename_i html htext hhtml
    have hfound : e.attributes.find? (fun a => a.control? config == some .html) = some html :=
      (gather_get? hds .html).symm.trans hhtml
    exact FaultLies.refuse (h html (List.mem_of_find?_eq_some hfound)) _
  · exact FaultLies.ok ds

end Directives

/-! ## Parts of an element -/

namespace Compiler

variable {c : Compiler} {scope : Scope} {a : Attribute} {e : Element} {ds : Directives}
  {children : List Node} {compiled : Except ExprFault (List Fragment)}

theorem checkScalar_faultLies {span : Span} (h : Lies text span) (use : Expr.ScalarUse) (t : Term) :
    FaultLies text (checkScalar use span t) := by
  rw [checkScalar]
  split
  · exact .ok _
  · exact .refuse h _

theorem loopOf_faultLies (h : a.Placed text) : FaultLies text (c.loopOf scope a) := by
  refine (LoopHeader.read_obeys h.excerpt).bind fun header hlist => ?_
  refine (header.list.resolve_faultLies hlist).bind fun list => ?_
  split
  · exact .ok _
  · exact .refuse (hlist _ header.list.mem_nodes_self) _

theorem conditionOf_faultLies (h : a.Placed text) : FaultLies text (c.conditionOf scope a) := by
  refine (Term.read_faultLies h.excerpt).bind fun t => ?_
  split
  · exact .ok t
  · exact .refuse h.valueSpan _

theorem dynamicAttribute_faultLies (h : a.Placed text) (name : String) :
    FaultLies text (c.dynamicAttribute scope name a) := by
  refine (Term.read_faultLies h.excerpt).bind fun t => ?_
  by_cases hboolean : booleanAttributes.contains name = true
  · rw [if_pos hboolean]
    split
    · exact .refuse h.valueSpan _
    · exact .ok _
  · rw [if_neg hboolean]
    exact (checkScalar_faultLies h.valueSpan _ t).bind fun _ => .ok _

theorem attributePieces_faultLies (h : a.Placed text) :
    FaultLies text (c.attributePieces scope a) := by
  rw [attributePieces]
  split
  · split
    · exact .ok _
    · split
      · exact .ok _
      · exact (dynamicAttribute_faultLies h _).bind fun _ => .ok _
  · exact .ok _

theorem attributesPieces_faultLies {attributes : List Attribute}
    (h : ∀ a ∈ attributes, a.Placed text) : FaultLies text (c.attributesPieces scope attributes) := by
  induction attributes with
  | nil => exact .ok _
  | cons a rest ih =>
      obtain ⟨ha, hrest⟩ := List.forall_mem_cons.1 h
      exact (attributePieces_faultLies ha).bind fun _ => (ih hrest).bind fun _ => .ok _

/-- What gives the content of an element is one of its attributes. -/
theorem placed_of_content (he : ∀ a ∈ e.attributes, a.Placed text)
    (hds : Directives.ofElement c.config e = .ok ds) {escaping : Text.Escaping}
    (h : ds.content? c.config = some (a, escaping)) : a.Placed text :=
  he a ((Directives.content?_eq_some hds).1 h).1

theorem bodyPieces_faultLies (he : ∀ a ∈ e.attributes, a.Placed text)
    (hds : Directives.ofElement c.config e = .ok ds) (hcompiled : FaultLies text compiled) :
    FaultLies text (c.bodyPieces scope e ds children compiled) := by
  rw [bodyPieces]
  split
  · rename_i hcontent
    have ha := placed_of_content he hds hcontent
    refine (Term.read_faultLies ha.excerpt).bind fun t => ?_
    refine (checkScalar_faultLies ha.valueSpan _ t).bind fun _ => ?_
    split
    · exact hcompiled.bind fun _ => .ok _
    · exact .ok _
  · split
    · exact .ok _
    · exact hcompiled

theorem restPieces_faultLies (he : ∀ a ∈ e.attributes, a.Placed text)
    (hds : Directives.ofElement c.config e = .ok ds) (hcompiled : FaultLies text compiled) :
    FaultLies text (c.restPieces scope e ds children compiled) := by
  rw [restPieces]
  split
  · split
    · rename_i hcontent
      exact .refuse (placed_of_content he hds hcontent).span _
    · exact .ok _
  · exact (bodyPieces_faultLies he hds hcompiled).bind fun _ => .ok _

theorem conditionalPieces_faultLies (he : ∀ a ∈ e.attributes, a.Placed text)
    (hds : Directives.ofElement c.config e = .ok ds) (hcompiled : FaultLies text compiled) :
    FaultLies text (c.conditionalPieces scope e ds children compiled) := by
  have helement : FaultLies text (c.elementPieces scope e ds children compiled) :=
    (attributesPieces_faultLies he).bind fun _ =>
      (restPieces_faultLies he hds hcompiled).bind fun _ => .ok _
  rw [conditionalPieces]
  split
  · exact helement
  · rename_i a hcondition
    have ha := he a ((Directives.get?_eq_some hds .condition).1 hcondition).1
    exact (conditionOf_faultLies ha).bind fun _ => helement.bind fun _ => .ok _

/-! ## Nodes -/

theorem partsPieces_faultLies {parts : List Interpolation.Part}
    (h : ∀ part ∈ parts, ∀ spot, part.spot? = some spot → slice? text spot.span = some spot.chars) :
    FaultLies text (c.partsPieces scope parts) := by
  induction parts with
  | nil => exact .ok _
  | cons part rest ih =>
      obtain ⟨hpart, hrest⟩ := List.forall_mem_cons.1 h
      have hpieces : FaultLies text (c.partPieces scope part) := by
        cases part with
        | plain cs => exact .ok _
        | code e =>
            have he : slice? text e.span = some e.chars := hpart _ rfl
            exact (Term.read_faultLies he).bind fun t =>
              (checkScalar_faultLies ⟨_, he⟩ _ t).bind fun _ => .ok _
        | unterminated span => exact .refuse ⟨_, hpart _ rfl⟩ _
      exact hpieces.bind fun _ => (ih hrest).bind fun _ => .ok _

/-- The expressions of a text stand in it, and so does a `#` with the brace after it. -/
theorem slice_of_part {content : String} {span : Span} (h : slice? text span = some content.toList)
    {part : Interpolation.Part} (hpart : part ∈ Interpolation.parts span.start content.toList)
    {spot : Spot} (hspot : part.spot? = some spot) : slice? text spot.span = some spot.chars := by
  obtain ⟨before, after, hchars, hspan⟩ := Interpolation.parts_spot hpart hspot
  rw [hspan]
  exact slice?_slice? h (slice?_eq_some.2 ⟨before, after, hchars, rfl⟩)

mutual

/-- What is refused of a node that stands in the text covers characters of it. -/
theorem nodePieces_faultLies (c : Compiler) : ∀ (node : Node) (scope : Scope),
    node.Throughout Node.Shaped →
      (∀ spot ∈ node.spots, slice? text spot.span = some spot.chars) →
        FaultLies text (c.nodePieces scope node)
  | .text content span, scope, _, h =>
      partsPieces_faultLies fun part hpart spot hspot =>
        slice_of_part (h _ (List.mem_singleton_self _)) hpart hspot
  | .comment content span, scope, _, _ => .ok _
  | .element e children, scope, hshaped, h => by
      obtain ⟨helement, hchildren⟩ := List.forall_mem_append.1 h
      have he : ∀ a ∈ e.attributes, a.Placed text := by
        refine fun a ha => ⟨hshaped.1.attributes a ha, fun spot hspot => ?_⟩
        exact helement spot (List.mem_cons_of_mem _ (List.mem_flatMap.2 ⟨a, ha, hspot⟩))
      have hdirectives := Directives.ofElement_faultLies c.config fun a ha => (he a ha).span
      rw [nodePieces]
      refine hdirectives.eq_ok.bind fun ds hds => ?_
      have hinner (scope : Scope) : FaultLies text
          (c.conditionalPieces scope e ds children (c.nodesPieces scope children)) :=
        conditionalPieces_faultLies he hds
          (nodesPieces_faultLies c children scope hshaped.2 hchildren)
      split
      · exact hinner scope
      · rename_i a hloop
        have ha := he a ((Directives.get?_eq_some hds .loop).1 hloop).1
        exact (loopOf_faultLies ha).bind fun head => (hinner _).bind fun _ => .ok _

theorem nodesPieces_faultLies (c : Compiler) : ∀ (nodes : List Node) (scope : Scope),
    Node.ThroughoutAll Node.Shaped nodes →
      (∀ spot ∈ Node.spotsAll nodes, slice? text spot.span = some spot.chars) →
        FaultLies text (c.nodesPieces scope nodes)
  | [], _, _, _ => .ok _
  | node :: rest, scope, hshaped, h => by
      obtain ⟨hnode, hrest⟩ := List.forall_mem_append.1 h
      exact (nodePieces_faultLies c node scope hshaped.1 hnode).bind fun _ =>
        (nodesPieces_faultLies c rest scope hshaped.2 hrest).bind fun _ => .ok _

end

end Compiler

/-- A template that does not compile is at fault at characters of it. -/
theorem Template.check_fault {config : Config} {source : Source} {context : ObjectTy}
    {error : CompileError} (h : Template.check config source context = .error error) :
    Lies source.chars error.span := by
  rcases Except.bind_eq_error.1 h with hread | ⟨document, hread, hcompile⟩
  · exact Document.read_fault hread
  · have hpieces := Compiler.nodesPieces_faultLies ⟨config, source⟩ document.children
      { root := context } (Document.read_shaped hread) (Document.spots_faithful hread).1
    have hfragment : FaultLies source.chars (Compiler.compile ⟨config, source⟩ context document) :=
      hpieces.bind fun _ => .ok _
    split at hcompile
    · cases hcompile
    · rename_i fault hfault
      cases hcompile
      rw [hfault] at hfragment
      exact hfragment

end TypedTemplate
