/-
# `TypedTemplate.Proofs.Fragment.Extension` — contexts that are extended

A host may come to declare more fields and methods for its context.  What a template says of the
old ones stays true: names are looked up, never listed, and what a loop binds is looked up before
the context is.  So a template that compiled still compiles, to the very same fragment.

`Likeness.extension` is a context and an extension of it in the sense of `Proofs.Term.Alike`;
types and methods correspond only to themselves, and terms that are built alike are then the same
(`Term.Alike.eq`, `Fragment.Alike.eq`).
-/
import TypedTemplate.Proofs.Fragment.Alike

namespace TypedTemplate

/-- All that `A` declares is declared in `B`, too, with the same types and callbacks. -/
structure ObjectTy.ExtendedBy (A B : ObjectTy) : Prop where
  field : ∀ name τ, A.field? name = some τ → B.field? name = some τ
  method : ∀ name m, A.method? name = some m → B.method? name = some m

/-- A member that was not there before is an extension. -/
theorem ObjectTy.extendedBy_withField {A : ObjectTy} {name : String} (τ : Ty)
    (h : A.field? name = none) : A.ExtendedBy (A.withField name τ) where
  field key σ hσ := by
    have hne : key ≠ name := by
      rintro rfl
      rw [h] at hσ
      cases hσ
    show (A.fields.put name τ).get? key = some σ
    rw [Entries.get?_put, if_neg hne]
    exact hσ
  method _ _ hm := hm

/-! ## Built alike from the same types -/

theorem Typing.Alike.eq {t t' : Typing} (h : t.Alike Eq t') : t = t' := by
  obtain ⟨type, location⟩ := t
  obtain ⟨htype, hlocation⟩ := h
  cases htype
  cases hlocation
  rfl

mutual

theorem Term.Alike.eq : ∀ {t t' : Term}, t.Alike Eq Eq t' → t = t'
  | .constant _ _, _, h => by
      cases h with
      | constant _ ht => rw [ht.eq]
  | .listing _ items, _, h => by
      cases h with
      | listing ht hitems => rw [ht.eq, Term.Alike.all_eq hitems]
  | .loopName _ _, _, h => by
      cases h with
      | loopName _ ht => rw [ht.eq]
  | .rootField _ _, _, h => by
      cases h with
      | rootField _ ht => rw [ht.eq]
  | .fieldOf _ base _, _, h => by
      cases h with
      | fieldOf _ ht hbase => rw [ht.eq, Term.Alike.eq hbase]
  | .rootCall _ _ _ args, _, h => by
      cases h with
      | rootCall _ ht hm hargs => rw [ht.eq, hm, Term.Alike.all_eq hargs]
  | .methodOf _ base _ _ args, _, h => by
      cases h with
      | methodOf _ ht hbase hm hargs =>
          rw [ht.eq, Term.Alike.eq hbase, hm, Term.Alike.all_eq hargs]
  | .builtinOf _ base _, _, h => by
      cases h with
      | builtinOf _ ht hbase => rw [ht.eq, Term.Alike.eq hbase]
  | .negation _ operand, _, h => by
      cases h with
      | negation ht hoperand => rw [ht.eq, Term.Alike.eq hoperand]

theorem Term.Alike.all_eq : ∀ {ts ts' : List Term},
    List.Forall₂ (Term.Alike Eq Eq) ts ts' → ts = ts'
  | [], _, h => by
      cases h
      rfl
  | t :: ts, _, h => by
      cases h with
      | cons ht hts => rw [Term.Alike.eq ht, Term.Alike.all_eq hts]

end

theorem Loop.Alike.eq {l l' : Loop} (h : l.Alike Eq Eq l') : l = l' := by
  obtain ⟨name, element, list⟩ := l
  obtain ⟨hname, helement, hlist⟩ := h
  cases hname
  cases helement
  cases hlist.eq
  rfl

mutual

theorem Fragment.Alike.eq : ∀ {f f' : Fragment}, f.Alike Eq Eq f' → f = f'
  | .static _, _, h => by
      cases h
      rfl
  | .interpolation _ _, _, h => by
      cases h with
      | interpolation _ ht => rw [ht.eq]
  | .attribute _ _ _ _, _, h => by
      cases h with
      | «attribute» _ _ _ ht => rw [ht.eq]
  | .sequence parts, _, h => by
      cases h with
      | sequence hparts => rw [Fragment.Alike.all_eq hparts]
  | .loop _ body, _, h => by
      cases h with
      | loop hhead hbody => rw [hhead.eq, Fragment.Alike.eq hbody]
  | .conditional _ body, _, h => by
      cases h with
      | conditional ht hbody => rw [ht.eq, Fragment.Alike.eq hbody]

theorem Fragment.Alike.all_eq : ∀ {fs fs' : List Fragment},
    List.Forall₂ (Fragment.Alike Eq Eq) fs fs' → fs = fs'
  | [], _, h => by
      cases h
      rfl
  | f :: fs, _, h => by
      cases h with
      | cons hf hfs => rw [Fragment.Alike.eq hf, Fragment.Alike.all_eq hfs]

end

/-! ## Extensions -/

/-- Every type for itself, and names that only the second context has. -/
def Likeness.extension : Likeness where
  ty := Eq
  method := Eq
  more := True
  scalar _ := rfl
  list := congrArg Ty.list
  matched := by
    rintro σ τ rfl
    cases σ with
    | bool | int | float | string => exact .scalar rfl
    | list σ => exact .list rfl
    | object o => exact .object (.refl fun _ _ => rfl) (.refl fun _ _ => rfl)
  same := by
    rintro σ σ' τ τ' rfl rfl
    rfl
  params := by
    rintro m n rfl
    exact List.forall₂_same.2 fun _ _ => rfl
  returns := congrArg Method.returns

theorem Option.matches_of_extends {α : Type} {x y : Option α} (h : ∀ a, x = some a → y = some a) :
    Option.Matches True Eq x y := by
  cases x with
  | some a =>
      rw [h a rfl]
      rfl
  | none => cases y <;> trivial

/-- The scopes inside the same loops. -/
theorem Likeness.scopes_extension {A B : ObjectTy} (h : A.ExtendedBy B)
    (bindings : List (String × Ty)) : Likeness.extension.Scopes ⟨A, bindings⟩ ⟨B, bindings⟩ where
  bindings := List.forall₂_same.2 fun _ _ => ⟨rfl, rfl⟩
  field name := Option.matches_of_extends (h.field name)
  method name := Option.matches_of_extends (h.method name)
  names := Or.inl trivial

/-- What could be resolved before is resolved to the same term. -/
theorem Expr.resolve_extends {A B : ObjectTy} (h : A.ExtendedBy B) {source : Source}
    {bindings : List (String × Ty)} {e : Expr} {t : Term}
    (ht : e.resolve source ⟨A, bindings⟩ = .ok t) : e.resolve source ⟨B, bindings⟩ = .ok t := by
  obtain ⟨t', ht', halike⟩ := (Likeness.resolve (Likeness.scopes_extension h bindings) e).of_ok ht
  rw [ht', Term.Alike.eq halike]

/-- What a loop binds is looked up before the context is. -/
theorem Expr.resolve_bound (source : Source) (context : ObjectTy) {bindings : List (String × Ty)}
    {word : String} {τ : Ty} (h : bindings.lookup word = some τ) (span : Span) :
    (Expr.ident word span).resolve source ⟨context, bindings⟩ =
      .ok (.loopName ⟨τ, source.location span.start⟩ word) := by
  rw [Expr.resolve, Resolve.name, Scope.lookup?, h]

/-- If more is declared for the context, a template that compiled compiles to the same fragment and
every rendering of it stays as it was.  So does every expression in every scope, and a name that a
loop binds remains the loop's, whatever is declared. -/
theorem Template.compile_extends {A B : ObjectTy} (h : A.ExtendedBy B) (config : Config)
    (source : Source) :
    (∀ t, Template.compile config source A = .ok t →
      ∃ t', Template.compile config source B = .ok t' ∧ t'.fragment = t.fragment ∧
        ∀ v, t'.render v = t.render v ∧ ∀ out, t'.renderTo out v = t.renderTo out v) ∧
    (∀ (bindings : List (String × Ty)) (e : Expr) (t : Term),
      e.resolve source ⟨A, bindings⟩ = .ok t → e.resolve source ⟨B, bindings⟩ = .ok t) ∧
    ∀ (bindings : List (String × Ty)) (word : String) (τ : Ty) (span : Span),
      bindings.lookup word = some τ →
        (Expr.ident word span).resolve source ⟨B, bindings⟩ =
          .ok (.loopName ⟨τ, source.location span.start⟩ word) := by
  refine ⟨fun t ht => ?_, fun bindings e t => Expr.resolve_extends h,
    fun bindings word τ span hbound => Expr.resolve_bound source B hbound span⟩
  have hcheck : Template.check config source A = .ok t := Except.mapError_eq_ok.1 ht
  obtain ⟨t', ht', halike⟩ :=
    (Likeness.check (Likeness.scopes_extension h []) config source).of_ok hcheck
  have hfragment : t'.fragment = t.fragment := (Fragment.Alike.eq halike.fragment).symm
  have hrenderTo (v : Value) (out : String) : t'.renderTo out v = t.renderTo out v := by
    rw [renderTo, renderTo, name, name, halike.source, hfragment]
  refine ⟨t', Except.mapError_eq_ok.2 ht', hfragment, fun v => ⟨?_, hrenderTo v⟩⟩
  rw [render, render, hrenderTo v ""]

/-! ## A menu of dishes -/

namespace Dishes

/-- A menu has dishes. -/
def page : ObjectTy := (ObjectTy.empty "Menu").withField "dishes" (.list .string)

/-- The same with a field of the name that a loop binds. -/
def priced : ObjectTy := page.withField "dish" .int

theorem page_extendedBy_priced : page.ExtendedBy priced := ObjectTy.extendedBy_withField .int rfl

/-- The dishes one by one. -/
def listed : Source := .ofString "menu" "<li c:for='dish:dishes'>#\x7bdish\x7d</li>"

/-- The theorem at the menu: the loop's name is still the loop's. -/
theorem compile_extends_dishes :
    page.ExtendedBy priced ∧
    (∃ t t', Template.compile {} listed page = .ok t ∧ Template.compile {} listed priced = .ok t' ∧
      t'.fragment = t.fragment ∧ ∀ v, t'.render v = t.render v) ∧
    (Expr.listing [.ident "dish" ⟨1, 4⟩] ⟨0, 6⟩).resolve listed ⟨priced, [("dish", .string)]⟩ =
      .ok (.listing ⟨.list .string, ⟨1, 1⟩⟩ [.loopName ⟨.string, ⟨1, 2⟩⟩ "dish"]) ∧
    (Expr.ident "dish" ⟨1, 4⟩).resolve listed ⟨priced, [("dish", .string)]⟩ =
      .ok (.loopName ⟨.string, ⟨1, 2⟩⟩ "dish") := by
  obtain ⟨hcompile, hresolve, hbound⟩ :=
    Template.compile_extends page_extendedBy_priced {} listed
  have hsucceeds : (Template.compile {} listed page).Succeeds := by decide +kernel
  obtain ⟨t, ht⟩ := hsucceeds
  obtain ⟨t', ht', hfragment, hrender⟩ := hcompile t ht
  exact ⟨page_extendedBy_priced, ⟨t, t', ht, ht', hfragment, fun v => (hrender v).1⟩,
    hresolve _ _ _ rfl, hbound _ _ _ _ rfl⟩

end Dishes

end TypedTemplate
