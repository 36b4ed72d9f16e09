/-
# `TypedTemplate.Proofs.Fragment.Steps` — when a step of compiling succeeds, and with what

One equivalence for each function that compiles a small part of a template: the step
succeeds with a given result if and only if the expression in that part can be read and
resolved, its term has a type that will do, and the result is made from it.  Elements are
put together in several ways, and for them each way is a case.  Proofs about compiled
templates use these and do not open the functions.
-/
import TypedTemplate.Proofs.Except
import TypedTemplate.Proofs.Ty.Same
import TypedTemplate.Template

namespace TypedTemplate

open Markup

theorem refuse_ne_ok {α : Type} {span : Span} {cause : Expr.Cause} {a : α} :
    (refuse span cause : Except ExprFault α) = .ok a ↔ False := by
  simp [refuse]

theorem Ty.element?_eq_some {τ σ : Ty} : τ.element? = some σ ↔ τ = .list σ := by
  cases τ <;> simp [Ty.element?]

namespace Compiler

variable {c : Compiler} {scope : Scope}

theorem checkScalar_ok {use : Expr.ScalarUse} {span : Span} {t : Term} {u : Unit} :
    checkScalar use span t = .ok u ↔ t.type.isScalar = true := by
  rw [checkScalar]
  split <;> simp_all [refuse]

theorem loopOf_ok {a : Attribute} {l : Loop} :
    c.loopOf scope a = .ok l ↔ ∃ header, LoopHeader.read a.excerpt = .ok header ∧
      header.name = l.name ∧ header.list.resolve c.source scope = .ok l.list ∧
      l.list.type = .list l.element := by
  simp only [loopOf, Except.bind_eq_ok]
  constructor
  · rintro ⟨header, hh, list, hl, h⟩
    split at h
    · rename_i element he
      cases Except.pure_eq_ok.1 h
      exact ⟨header, hh, rfl, hl, Ty.element?_eq_some.1 he⟩
    · exact (refuse_ne_ok.1 h).elim
  · rintro ⟨header, hh, hname, hl, hty⟩
    refine ⟨header, hh, l.list, hl, ?_⟩
    rw [Ty.element?_eq_some.2 hty, hname]
    rfl

theorem conditionOf_ok {a : Attribute} {t : Term} :
    c.conditionOf scope a = .ok t ↔
      Term.read c.source scope a.excerpt = .ok t ∧ t.type = .bool := by
  simp only [conditionOf, Except.bind_eq_ok]
  constructor
  · rintro ⟨t', ht, h⟩
    split at h
    · rename_i hs
      cases Except.pure_eq_ok.1 h
      exact ⟨ht, Ty.same_bool.1 hs⟩
    · exact (refuse_ne_ok.1 h).elim
  · rintro ⟨ht, hty⟩
    exact ⟨t, ht, by rw [if_pos (Ty.same_bool.2 hty)]; rfl⟩

theorem plain_ok {cs : List Char} {fs : List Fragment} :
    c.partPieces scope (.plain cs) = .ok fs ↔ fs = [.static (String.ofList cs)] := by
  simp [partPieces, eq_comm]

theorem code_ok {e : Excerpt} {fs : List Fragment} :
    c.partPieces scope (.code e) = .ok fs ↔ ∃ t, Term.read c.source scope e = .ok t ∧
      t.type.isScalar = true ∧ fs = [.interpolation t c.config.escaping] := by
  simp only [partPieces, Except.bind_eq_ok, Except.pure_eq_ok, checkScalar_ok]
  constructor
  · rintro ⟨t, ht, _, hs, rfl⟩
    exact ⟨t, ht, hs, rfl⟩
  · rintro ⟨t, ht, hs, rfl⟩
    exact ⟨t, ht, (), hs, rfl⟩

theorem unterminated_ok {span : Span} {fs : List Fragment} :
    c.partPieces scope (.unterminated span) = .ok fs ↔ False := refuse_ne_ok

theorem partsPieces_cons_ok {part : Interpolation.Part} {parts : List Interpolation.Part}
    {fs : List Fragment} :
    c.partsPieces scope (part :: parts) = .ok fs ↔ ∃ pieces more,
      c.partPieces scope part = .ok pieces ∧ c.partsPieces scope parts = .ok more ∧
        fs = pieces ++ more := by
  simp only [partsPieces, Except.bind_eq_ok, Except.pure_eq_ok]
  constructor
  · rintro ⟨pieces, hp, more, hm, rfl⟩
    exact ⟨pieces, more, hp, hm, rfl⟩
  · rintro ⟨pieces, more, hp, hm, rfl⟩
    exact ⟨pieces, hp, more, hm, rfl⟩

/-- The types that will do for an attribute: a boolean one has to be of type `Bool`. -/
def AttributeTy (boolean : Bool) (τ : Ty) : Prop :=
  if boolean then τ = .bool else τ.isScalar = true

theorem dynamicAttribute_ok {name : String} {a : Attribute} {f : Fragment} :
    c.dynamicAttribute scope name a = .ok f ↔ ∃ t, Term.read c.source scope a.excerpt = .ok t ∧
      AttributeTy (booleanAttributes.contains name) t.type ∧
      f = .attribute name t (booleanAttributes.contains name) c.config.escaping := by
  simp only [dynamicAttribute, Except.bind_eq_ok]
  generalize booleanAttributes.contains name = boolean
  cases boolean with
  | true =>
      simp only [if_true, AttributeTy]
      constructor
      · rintro ⟨t, ht, h⟩
        split at h
        · simp [refuse, bind, Except.bind] at h
        · rename_i hs
          exact ⟨t, ht, Ty.same_bool.1 (by simpa using hs), (Except.pure_eq_ok.1 h).symm⟩
      · rintro ⟨t, ht, hty, rfl⟩
        refine ⟨t, ht, ?_⟩
        rw [if_neg (by simp [hty, Ty.same])]
        rfl
  | false =>
      simp only [Bool.false_eq_true, if_false, AttributeTy, Except.bind_eq_ok, checkScalar_ok,
        Except.pure_eq_ok]
      constructor
      · rintro ⟨t, ht, _, hs, rfl⟩
        exact ⟨t, ht, hs, rfl⟩
      · rintro ⟨t, ht, hs, rfl⟩
        exact ⟨t, ht, (), hs, rfl⟩

theorem attributesPieces_cons_ok {a : Attribute} {as : List Attribute} {fs : List Fragment} :
    c.attributesPieces scope (a :: as) = .ok fs ↔ ∃ pieces more,
      c.attributePieces scope a = .ok pieces ∧ c.attributesPieces scope as = .ok more ∧
        fs = pieces ++ more := by
  simp only [attributesPieces, Except.bind_eq_ok, Except.pure_eq_ok]
  constructor
  · rintro ⟨pieces, hp, more, hm, rfl⟩
    exact ⟨pieces, more, hp, hm, rfl⟩
  · rintro ⟨pieces, more, hp, hm, rfl⟩
    exact ⟨pieces, hp, more, hm, rfl⟩

theorem nodesPieces_cons_ok {node : Node} {nodes : List Node} {fs : List Fragment} :
    c.nodesPieces scope (node :: nodes) = .ok fs ↔ ∃ pieces more,
      c.nodePieces scope node = .ok pieces ∧ c.nodesPieces scope nodes = .ok more ∧
        fs = pieces ++ more := by
  simp only [nodesPieces, Except.bind_eq_ok, Except.pure_eq_ok]
  constructor
  · rintro ⟨pieces, hp, more, hm, rfl⟩
    exact ⟨pieces, more, hp, hm, rfl⟩
  · rintro ⟨pieces, more, hp, hm, rfl⟩
    exact ⟨pieces, hp, more, hm, rfl⟩

theorem attributePieces_ok {a : Attribute} {fs : List Fragment}
    (h : c.attributePieces scope a = .ok fs) :
    (a.dynamic = false ∧ fs = staticPieces a.marks) ∨
      (a.dynamic = true ∧ c.config.directive? a.name = none ∧ fs = []) ∨
      ∃ name, a.dynamic = true ∧ c.config.directive? a.name = some name ∧
        (((Control.ofName? name).isSome = true ∧ fs = []) ∨
          ∃ f, (Control.ofName? name).isSome = false ∧ c.dynamicAttribute scope name a = .ok f ∧
            fs = [f]) := by
  rw [attributePieces] at h
  split at h
  · rename_i hd
    split at h
    · rename_i hn
      cases h
      exact Or.inr (Or.inl ⟨hd, hn, rfl⟩)
    · rename_i name hn
      refine Or.inr (Or.inr ⟨name, hd, hn, ?_⟩)
      split at h
      · rename_i hc
        cases h
        exact Or.inl ⟨hc, rfl⟩
      · rename_i hc
        simp only [Except.bind_eq_ok, Except.pure_eq_ok] at h
        obtain ⟨f, hf, rfl⟩ := h
        exact Or.inr ⟨f, by simpa using hc, hf, rfl⟩
  · rename_i hd
    cases h
    exact Or.inl ⟨by simpa using hd, rfl⟩

/-! ## Elements -/

section

variable {e : Element} {ds : Directives} {children : List Node}
  {compiled : Except ExprFault (List Fragment)} {fs : List Fragment}

/-- Between the tags stands a value, or text that is not markup, or the children. -/
theorem bodyPieces_ok (h : c.bodyPieces scope e ds children compiled = .ok fs) :
    (∃ a escaping t, ds.content? c.config = some (a, escaping) ∧
      Term.read c.source scope a.excerpt = .ok t ∧ t.type.isScalar = true ∧
        fs = [.interpolation t escaping]) ∨
      (ds.content? c.config = none ∧ isRawText e.name = true ∧ fs = rawPieces children) ∨
      (ds.content? c.config = none ∧ isRawText e.name = false ∧ compiled = .ok fs) := by
  rw [bodyPieces] at h
  split at h
  · rename_i a escaping hcontent
    simp only [Except.bind_eq_ok, checkScalar_ok] at h
    obtain ⟨t, ht, _, hs, h⟩ := h
    refine Or.inl ⟨a, escaping, t, hcontent, ht, hs, ?_⟩
    split at h
    · simp only [Except.bind_eq_ok, Except.pure_eq_ok] at h
      obtain ⟨_, -, rfl⟩ := h
      rfl
    · exact (Except.pure_eq_ok.1 h).symm
  · rename_i hcontent
    split at h
    · rename_i hraw
      cases h
      exact Or.inr (Or.inl ⟨hcontent, hraw, rfl⟩)
    · rename_i hraw
      exact Or.inr (Or.inr ⟨hcontent, by simpa using hraw, h⟩)

/-- An element is its tag and, unless that closes itself, its body and its end tag. -/
theorem elementPieces_ok (h : c.elementPieces scope e ds children compiled = .ok fs) :
    ∃ attributes rest, c.attributesPieces scope e.attributes = .ok attributes ∧
      fs = staticPieces [.openTag e.name] ++ attributes ++ rest ∧
      ((e.selfClosed = true ∧ ds.content? c.config = none ∧ rest = staticPieces [.tagSelfClose]) ∨
        (e.selfClosed = false ∧ ∃ body, c.bodyPieces scope e ds children compiled = .ok body ∧
          rest = staticPieces [.tagEnd] ++ body ++ staticPieces e.closeMarks)) := by
  simp only [elementPieces, Except.bind_eq_ok, Except.pure_eq_ok] at h
  obtain ⟨attributes, ha, rest, hr, rfl⟩ := h
  refine ⟨attributes, rest, ha, rfl, ?_⟩
  rw [restPieces] at hr
  split at hr
  · rename_i hself
    split at hr
    · exact (refuse_ne_ok.1 hr).elim
    · rename_i hcontent
      cases hr
      exact Or.inl ⟨hself, hcontent, rfl⟩
  · rename_i hself
    simp only [Except.bind_eq_ok, Except.pure_eq_ok] at hr
    obtain ⟨body, hb, rfl⟩ := hr
    exact Or.inr ⟨by simpa using hself, body, hb, rfl⟩

/-- Around an element comes its condition. -/
theorem conditionalPieces_ok (h : c.conditionalPieces scope e ds children compiled = .ok fs) :
    (ds.condition = none ∧ c.elementPieces scope e ds children compiled = .ok fs) ∨
      ∃ a t pieces, ds.condition = some a ∧ c.conditionOf scope a = .ok t ∧
        c.elementPieces scope e ds children compiled = .ok pieces ∧
          fs = [.conditional t (.ofPieces pieces)] := by
  rw [conditionalPieces] at h
  split at h
  · rename_i hnone
    exact Or.inl ⟨hnone, h⟩
  · rename_i a ha
    simp only [Except.bind_eq_ok, Except.pure_eq_ok] at h
    obtain ⟨t, ht, pieces, hp, rfl⟩ := h
    exact Or.inr ⟨a, t, pieces, ha, ht, hp, rfl⟩

/-- Around an element and its condition comes its loop. -/
theorem elementNode_ok (h : c.nodePieces scope (.element e children) = .ok fs) :
    ∃ ds, Directives.ofElement c.config e = .ok ds ∧
      ((ds.loop = none ∧
        c.conditionalPieces scope e ds children (c.nodesPieces scope children) = .ok fs) ∨
        ∃ a head pieces, ds.loop = some a ∧ c.loopOf scope a = .ok head ∧
          c.conditionalPieces (scope.bind head.name head.element) e ds children
            (c.nodesPieces (scope.bind head.name head.element) children) = .ok pieces ∧
          fs = [.loop head (.ofPieces pieces)]) := by
  simp only [nodePieces, Except.bind_eq_ok] at h
  obtain ⟨ds, hds, h⟩ := h
  refine ⟨ds, hds, ?_⟩
  split at h
  · rename_i hnone
    exact Or.inl ⟨hnone, h⟩
  · rename_i a ha
    simp only [Except.bind_eq_ok, Except.pure_eq_ok] at h
    obtain ⟨head, hh, pieces, hp, rfl⟩ := h
    exact Or.inr ⟨a, head, pieces, ha, hh, hp, rfl⟩

/-- An element around which there is neither a loop nor a condition. -/
theorem nodePieces_of_unconditional (hds : Directives.ofElement c.config e = .ok ds)
    (hloop : ds.loop = none) (hcondition : ds.condition = none) :
    c.nodePieces scope (.element e children) =
      c.elementPieces scope e ds children (c.nodesPieces scope children) := by
  simp only [nodePieces, hds, bind, Except.bind, hloop, conditionalPieces, hcondition]

theorem nodesPieces_singleton (node : Node) :
    c.nodesPieces scope [node] = c.nodePieces scope node := by
  rw [nodesPieces, nodesPieces]
  cases c.nodePieces scope node with
  | error fault => rfl
  | ok pieces => exact congrArg Except.ok (List.append_nil pieces)

end

end Compiler

/-- A template that compiles has a document, of which its fragment was compiled. -/
theorem Template.compile_ok {config : Config} {source : Source} {context : ObjectTy}
    {t : Template} : Template.compile config source context = .ok t ↔
      ∃ document f, Markup.Document.read config source = .ok document ∧
        Compiler.compile ⟨config, source⟩ context document = .ok f ∧ t = ⟨source, context, f⟩ := by
  simp only [Template.compile, Except.mapError_eq_ok, Template.check, Except.bind_eq_ok]
  constructor
  · rintro ⟨document, hd, h⟩
    split at h
    · rename_i f hf
      exact ⟨document, f, hd, hf, (Except.pure_eq_ok.1 h).symm⟩
    · simp [throw, throwThe, MonadExceptOf.throw] at h
  · rintro ⟨document, f, hd, hf, rfl⟩
    exact ⟨document, hd, by rw [hf]; rfl⟩

end TypedTemplate
