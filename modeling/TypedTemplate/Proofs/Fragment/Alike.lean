/-
# `TypedTemplate.Proofs.Fragment.Alike` — one document under two contexts

What `Proofs.Term.Alike` says of an expression holds of a whole document: under scopes that
correspond, each step of compiling succeeds alike or fails alike (`Likeness.Both`).  Markup does
not depend on the context at all, so there is one lemma for each step that reads an expression or
goes on to one that does, in the order in which the steps call one another, and at the end
`Likeness.check` for a whole template.
-/
import TypedTemplate.Proofs.Term.Alike
import TypedTemplate.Template

namespace TypedTemplate

open Markup

/-! ## Fragments that are built alike -/

/-- Two loops over lists that are built alike, binding the same name. -/
structure Loop.Alike (ty : Ty → Ty → Prop) (method : Method → Method → Prop) (l l' : Loop) :
    Prop where
  name : l.name = l'.name
  element : ty l.element l'.element
  list : l.list.Alike ty method l'.list

/-- Two fragments of the same form and with the same texts, whose terms are built alike. -/
inductive Fragment.Alike (ty : Ty → Ty → Prop) (method : Method → Method → Prop) :
    Fragment → Fragment → Prop
  | static (content : String) : Alike ty method (.static content) (.static content)
  | interpolation {t t' : Term} (escaping : Text.Escaping) : t.Alike ty method t' →
      Alike ty method (.interpolation t escaping) (.interpolation t' escaping)
  | attribute (name : String) {t t' : Term} (boolean : Bool) (escaping : Text.Escaping) :
      t.Alike ty method t' →
      Alike ty method (.attribute name t boolean escaping) (.attribute name t' boolean escaping)
  | sequence {parts parts' : List Fragment} : List.Forall₂ (Alike ty method) parts parts' →
      Alike ty method (.sequence parts) (.sequence parts')
  | loop {head head' : Loop} {body body' : Fragment} : head.Alike ty method head' →
      Alike ty method body body' → Alike ty method (.loop head body) (.loop head' body')
  | conditional {t t' : Term} {body body' : Fragment} : t.Alike ty method t' →
      Alike ty method body body' → Alike ty method (.conditional t body) (.conditional t' body')

namespace Likeness

variable {L : Likeness} {c : Compiler} {s s' : Scope}

/-- Fragments that are built alike. -/
abbrev Parts (L : Likeness) : List Fragment → List Fragment → Prop :=
  List.Forall₂ (Fragment.Alike L.ty L.method)

theorem parts_static {α : Type} (text : α → String) (xs : List α) :
    L.Parts (xs.map fun x => .static (text x)) (xs.map fun x => .static (text x)) := by
  induction xs with
  | nil => exact .nil
  | cons x xs ih => exact .cons (.static _) ih

theorem parts_staticPieces (marks : List Mark) :
    L.Parts (Compiler.staticPieces marks) (Compiler.staticPieces marks) := parts_static _ marks

theorem parts_textPiece (content : String) :
    L.Parts (Fragment.textPiece content) (Fragment.textPiece content) := by
  rw [Fragment.textPiece]
  split
  · exact .nil
  · exact .cons (.static content) .nil

theorem parts_joinText {fs fs' : List Fragment} (h : L.Parts fs fs') (pending : String) :
    L.Parts (Fragment.joinText pending fs) (Fragment.joinText pending fs') := by
  induction h generalizing pending with
  | nil => exact parts_textPiece pending
  | @cons f f' fs fs' hf hfs ih =>
      have hother : L.Parts (Fragment.textPiece pending ++ f :: Fragment.joinText "" fs)
          (Fragment.textPiece pending ++ f' :: Fragment.joinText "" fs') :=
        List.rel_append (parts_textPiece pending) (.cons hf (ih ""))
      cases hf with
      | static content => exact ih _
      | _ => exact hother

/-- Pieces that are built alike are put together alike. -/
theorem ofPieces {fs fs' : List Fragment} (h : L.Parts fs fs') :
    Fragment.Alike L.ty L.method (.ofPieces fs) (.ofPieces fs') := by
  have hjoin := parts_joinText h ""
  rw [Fragment.ofPieces, Fragment.ofPieces]
  generalize Fragment.joinText "" fs = gs, Fragment.joinText "" fs' = gs' at hjoin ⊢
  cases hjoin with
  | nil => exact .sequence .nil
  | cons hf hfs =>
      cases hfs with
      | nil => exact hf
      | cons hg hgs => exact .sequence (.cons hf (.cons hg hgs))

/-! ## Expressions for a purpose -/

theorem read (h : L.Scopes s s') (source : Source) (e : Excerpt) :
    L.Both L.Terms (Term.read source s e) (Term.read source s' e) := by
  refine (Both.refl (Expr.read e)).andThen fun expr _ heq => ?_
  subst heq
  exact resolve h expr

theorem checkScalar {t t' : Term} (h : L.Terms t t') (use : Expr.ScalarUse) (span : Span) :
    L.Both Eq (Compiler.checkScalar use span t) (Compiler.checkScalar use span t') := by
  rw [Compiler.checkScalar, Compiler.checkScalar, isScalar h.type]
  split
  · exact rfl
  · exact both_refuse span (.notScalar use h.type)

theorem loopOf (h : L.Scopes s s') (a : Attribute) :
    L.Both (Loop.Alike L.ty L.method) (c.loopOf s a) (c.loopOf s' a) := by
  refine (Both.refl (LoopHeader.read a.excerpt)).andThen fun header _ heq => ?_
  subst heq
  refine (resolve h header.list).andThen fun t t' ht => ?_
  have helement := element? ht.type
  revert helement
  generalize t.type.element? = element, t'.type.element? = element'
  rintro (helement | -)
  · exact ⟨rfl, helement, ht⟩
  · exact both_refuse _ (.notAList _ ht.type)

theorem conditionOf (h : L.Scopes s s') (a : Attribute) :
    L.Both L.Terms (c.conditionOf s a) (c.conditionOf s' a) := by
  refine (read h c.source a.excerpt).andThen fun t t' ht => ?_
  rw [L.same ht.type (L.scalar rfl)]
  split
  · exact ht
  · exact both_refuse _ (.conditionType ht.type)

theorem partPieces (h : L.Scopes s s') (part : Interpolation.Part) :
    L.Both L.Parts (c.partPieces s part) (c.partPieces s' part) := by
  cases part with
  | plain cs => exact List.Forall₂.cons (.static _) .nil
  | code e =>
      refine (read h c.source e).andThen fun t t' ht => ?_
      refine (checkScalar ht _ _).andThen fun _ _ _ => ?_
      exact List.Forall₂.cons (.interpolation _ ht) .nil
  | unterminated span => exact both_refuse span (.same _)

theorem partsPieces (h : L.Scopes s s') (parts : List Interpolation.Part) :
    L.Both L.Parts (c.partsPieces s parts) (c.partsPieces s' parts) := by
  induction parts with
  | nil => exact List.Forall₂.nil
  | cons part parts ih =>
      refine (partPieces h part).andThen fun _ _ hpieces => ih.andThen fun _ _ hmore => ?_
      exact List.rel_append hpieces hmore

/-! ## Tags -/

theorem dynamicAttribute (h : L.Scopes s s') (name : String) (a : Attribute) :
    L.Both (Fragment.Alike L.ty L.method) (c.dynamicAttribute s name a)
      (c.dynamicAttribute s' name a) := by
  refine (read h c.source a.excerpt).andThen fun t t' ht => ?_
  dsimp only
  split
  · rw [L.same ht.type (L.scalar rfl)]
    split
    · exact both_refuse _ (.booleanAttributeType name ht.type)
    · exact Fragment.Alike.attribute name _ _ ht
  · refine (checkScalar ht _ _).andThen fun _ _ _ => ?_
    exact Fragment.Alike.attribute name _ _ ht

theorem attributePieces (h : L.Scopes s s') (a : Attribute) :
    L.Both L.Parts (c.attributePieces s a) (c.attributePieces s' a) := by
  rw [Compiler.attributePieces, Compiler.attributePieces]
  split
  · split
    · exact List.Forall₂.nil
    · rename_i name _
      split
      · exact List.Forall₂.nil
      · refine (dynamicAttribute h name a).andThen fun _ _ hf => ?_
        exact List.Forall₂.cons hf .nil
  · exact parts_staticPieces a.marks

theorem attributesPieces (h : L.Scopes s s') (as : List Attribute) :
    L.Both L.Parts (c.attributesPieces s as) (c.attributesPieces s' as) := by
  induction as with
  | nil => exact List.Forall₂.nil
  | cons a as ih =>
      refine (attributePieces h a).andThen fun _ _ hpieces => ih.andThen fun _ _ hmore => ?_
      exact List.rel_append hpieces hmore

/-! ## Elements -/

section

variable {e : Element} {ds : Directives} {children : List Node}
  {compiled compiled' : Except ExprFault (List Fragment)}

theorem parts_rawPieces (children : List Node) :
    L.Parts (Compiler.rawPieces children) (Compiler.rawPieces children) := by
  refine List.forall₂_same.2 fun f hf => ?_
  obtain ⟨node, -, hnode⟩ := List.mem_filterMap.1 hf
  cases node with
  | text content span =>
      cases hnode
      exact .static content
  | _ => cases hnode

theorem bodyPieces (h : L.Scopes s s') (hcompiled : L.Both L.Parts compiled compiled') :
    L.Both L.Parts (c.bodyPieces s e ds children compiled)
      (c.bodyPieces s' e ds children compiled') := by
  rw [Compiler.bodyPieces, Compiler.bodyPieces]
  split
  · refine (read h c.source _).andThen fun t t' ht => ?_
    refine (checkScalar ht _ _).andThen fun _ _ _ => ?_
    have hvalue (escaping : Text.Escaping) :
        L.Parts [.interpolation t escaping] [.interpolation t' escaping] :=
      .cons (.interpolation escaping ht) .nil
    split
    · exact hcompiled.andThen fun _ _ _ => hvalue _
    · exact hvalue _
  · split
    · exact parts_rawPieces children
    · exact hcompiled

theorem restPieces (h : L.Scopes s s') (hcompiled : L.Both L.Parts compiled compiled') :
    L.Both L.Parts (c.restPieces s e ds children compiled)
      (c.restPieces s' e ds children compiled') := by
  rw [Compiler.restPieces, Compiler.restPieces]
  split
  · split
    · exact both_refuse _ (.same _)
    · exact parts_staticPieces _
  · refine (bodyPieces h hcompiled).andThen fun _ _ hbody => ?_
    exact List.rel_append (List.rel_append (parts_staticPieces _) hbody) (parts_staticPieces _)

theorem elementPieces (h : L.Scopes s s') (hcompiled : L.Both L.Parts compiled compiled') :
    L.Both L.Parts (c.elementPieces s e ds children compiled)
      (c.elementPieces s' e ds children compiled') := by
  refine (attributesPieces h e.attributes).andThen fun _ _ hattributes => ?_
  refine (restPieces h hcompiled).andThen fun _ _ hrest => ?_
  exact List.rel_append (List.rel_append (parts_staticPieces _) hattributes) hrest

theorem conditionalPieces (h : L.Scopes s s') (hcompiled : L.Both L.Parts compiled compiled') :
    L.Both L.Parts (c.conditionalPieces s e ds children compiled)
      (c.conditionalPieces s' e ds children compiled') := by
  rw [Compiler.conditionalPieces, Compiler.conditionalPieces]
  split
  · exact elementPieces h hcompiled
  · refine (conditionOf h _).andThen fun _ _ ht => ?_
    refine (elementPieces h hcompiled).andThen fun _ _ hpieces => ?_
    exact List.Forall₂.cons (.conditional ht (ofPieces hpieces)) .nil

end

mutual

theorem nodePieces : ∀ (node : Node) {s s' : Scope}, L.Scopes s s' →
    L.Both L.Parts (c.nodePieces s node) (c.nodePieces s' node)
  | .text content span, s, s', h => by
      simp only [Compiler.nodePieces]
      exact partsPieces h _
  | .comment content span, s, s', h => by
      simp only [Compiler.nodePieces]
      split
      · exact List.Forall₂.nil
      · exact List.Forall₂.cons (.static content) .nil
  | .element e children, s, s', h => by
      simp only [Compiler.nodePieces]
      refine (Both.refl (Directives.ofElement c.config e)).andThen fun ds _ heq => ?_
      subst heq
      cases ds.loop with
      | none => exact conditionalPieces h (nodesPieces children h)
      | some a =>
          refine (loopOf h a).andThen fun head head' hhead => ?_
          have hinner : L.Scopes (s.bind head.name head.element)
              (s'.bind head'.name head'.element) := by
            rw [hhead.name]
            exact h.bind _ hhead.element
          refine (conditionalPieces hinner (nodesPieces children hinner)).andThen
            fun _ _ hpieces => ?_
          exact List.Forall₂.cons (.loop hhead (ofPieces hpieces)) .nil

theorem nodesPieces : ∀ (nodes : List Node) {s s' : Scope}, L.Scopes s s' →
    L.Both L.Parts (c.nodesPieces s nodes) (c.nodesPieces s' nodes)
  | [], s, s', h => List.Forall₂.nil
  | node :: rest, s, s', h => by
      simp only [Compiler.nodesPieces]
      refine (nodePieces node h).andThen fun _ _ hpieces => ?_
      refine (nodesPieces rest h).andThen fun _ _ hmore => ?_
      exact List.rel_append hpieces hmore

end

/-- Under corresponding contexts a document compiles alike or fails alike. -/
theorem compile {A B : ObjectTy} (h : L.Scopes ⟨A, []⟩ ⟨B, []⟩) (document : Document) :
    L.Both (Fragment.Alike L.ty L.method) (c.compile A document) (c.compile B document) := by
  refine (nodesPieces document.children h).andThen fun _ _ hpieces => ?_
  exact ofPieces hpieces

/-- The same error, or faults alike in expressions. -/
inductive Errors (L : Likeness) : CompileError → CompileError → Prop where
  | more (e e' : CompileError) : L.more → Errors L e e'
  | same (e : CompileError) : Errors L e e
  | expression {f f' : ExprFault} : L.Faults f f' → Errors L (.expression f) (.expression f')

/-- Templates of one source whose fragments are built alike. -/
structure Templates (L : Likeness) (t t' : Template) : Prop where
  source : t.source = t'.source
  fragment : t.fragment.Alike L.ty L.method t'.fragment

/-- Under corresponding contexts a template is accepted alike or refused alike. -/
theorem check {A B : ObjectTy} (h : L.Scopes ⟨A, []⟩ ⟨B, []⟩) (config : Config) (source : Source) :
    Except.Matches L.more L.Templates L.Errors (Template.check config source A)
      (Template.check config source B) := by
  rw [Template.check, Template.check]
  cases Document.read config source with
  | error e => exact .same e
  | ok document =>
      dsimp only [bind, Except.bind]
      have hcompile := compile (c := ⟨config, source⟩) h document
      revert hcompile
      generalize Compiler.compile _ A document = x, Compiler.compile _ B document = y
      intro hcompile
      cases x with
      | ok f =>
          cases y with
          | ok f' => exact ⟨rfl, hcompile⟩
          | error _ => exact hcompile.elim
      | error f =>
          cases y with
          | ok f' => exact hcompile
          | error f' => exact .expression hcompile

end Likeness

end TypedTemplate
