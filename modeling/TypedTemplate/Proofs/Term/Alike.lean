/-
# `TypedTemplate.Proofs.Term.Alike` — one expression under two contexts

The same expression may be resolved under two context types whose members correspond in some way:
under two equal types, or under a type and an extension of it.  A `Likeness` is such a
correspondence, with what resolving needs of it: types that correspond are of one form, with
corresponding parts, and two comparisons of corresponding types come out alike.  If there is
`more` in the second context, a name may be known there and not in the first.

Under scopes that correspond (`Likeness.Scopes`) an expression resolves to terms that are built
alike, or fails alike (`Likeness.resolve`): terms with the same names and places, and
corresponding types and methods (`Term.Alike`); faults of one cause at one span, about
corresponding types (`Likeness.Faults`).
-/
import TypedTemplate.Proofs.Except
import TypedTemplate.Proofs.Ty.Equality
import TypedTemplate.Term.Resolve

namespace TypedTemplate

/-- Related entries, or none in either; with `more` on the right, there may be one only there. -/
def Option.Matches {α β : Type} (more : Prop) (R : α → β → Prop) : Option α → Option β → Prop
  | some a, some b => R a b
  | none, none => True
  | none, some _ => more
  | some _, none => False

/-! ## Types that correspond -/

/-- Two types of one form with related parts. -/
inductive Ty.Matched (ty : Ty → Ty → Prop) (method : Method → Method → Prop) : Ty → Ty → Prop where
  | scalar {τ : Ty} : τ.isScalar = true → Matched ty method τ τ
  | list {σ τ : Ty} : ty σ τ → Matched ty method (.list σ) (.list τ)
  | object {o o' : ObjectTy} : o.fields.Agree ty o'.fields → o.methods.Agree method o'.methods →
      Matched ty method (.object o) (.object o')

/-- A correspondence of types and methods that resolving an expression respects. -/
structure Likeness where
  ty : Ty → Ty → Prop
  method : Method → Method → Prop
  /-- The second context may have names that the first has not. -/
  more : Prop
  scalar : ∀ {τ}, τ.isScalar = true → ty τ τ
  list : ∀ {σ τ}, ty σ τ → ty (.list σ) (.list τ)
  matched : ∀ {σ τ}, ty σ τ → Ty.Matched ty method σ τ
  same : ∀ {σ σ' τ τ'}, ty σ σ' → ty τ τ' → σ.same τ = σ'.same τ'
  params : ∀ {m n}, method m n → List.Forall₂ ty m.params n.params
  returns : ∀ {m n}, method m n → ty m.returns n.returns

/-- Two faults of one kind, about corresponding types.  Where names in scope or members of the
context are listed, the lists hold the same. -/
inductive Expr.Cause.Alike (ty : Ty → Ty → Prop) : Expr.Cause → Expr.Cause → Prop where
  | same (cause : Expr.Cause) : Alike ty cause cause
  | unknownName (name : String) {names names' : List String} : names.Perm names' →
      Alike ty (.unknownName name names) (.unknownName name names')
  | unknownRootMethod {root root' : ObjectTy} (name : String) : ty (.object root) (.object root') →
      Alike ty (.unknownRootMethod root name) (.unknownRootMethod root' name)
  | unknownField {σ τ : Ty} (name : String) : ty σ τ →
      Alike ty (.unknownField σ name) (.unknownField τ name)
  | unknownMethod {σ τ : Ty} (name : String) : ty σ τ →
      Alike ty (.unknownMethod σ name) (.unknownMethod τ name)
  | mixedList {σ σ' τ τ' : Ty} : ty σ σ' → ty τ τ' → Alike ty (.mixedList σ τ) (.mixedList σ' τ')
  | argumentType (index : Nat) (method : String) {σ σ' τ τ' : Ty} : ty σ σ' → ty τ τ' →
      Alike ty (.argumentType index method σ τ) (.argumentType index method σ' τ')
  | negationOf {σ τ : Ty} : ty σ τ → Alike ty (.negationOf σ) (.negationOf τ)
  | notAList (list : String) {σ τ : Ty} : ty σ τ → Alike ty (.notAList list σ) (.notAList list τ)
  | conditionType {σ τ : Ty} : ty σ τ → Alike ty (.conditionType σ) (.conditionType τ)
  | booleanAttributeType (name : String) {σ τ : Ty} : ty σ τ →
      Alike ty (.booleanAttributeType name σ) (.booleanAttributeType name τ)
  | notScalar (use : Expr.ScalarUse) {σ τ : Ty} : ty σ τ →
      Alike ty (.notScalar use σ) (.notScalar use τ)

/-! ## Terms that are built alike -/

/-- Corresponding types at one place. -/
structure Typing.Alike (ty : Ty → Ty → Prop) (t t' : Typing) : Prop where
  type : ty t.type t'.type
  location : t.location = t'.location

/-- Two terms with the same names and places, whose types and methods correspond. -/
inductive Term.Alike (ty : Ty → Ty → Prop) (method : Method → Method → Prop) : Term → Term → Prop
  | constant {t t' : Typing} (literal : Expr.Literal) : t.Alike ty t' →
      Alike ty method (.constant t literal) (.constant t' literal)
  | listing {t t' : Typing} {items items' : List Term} : t.Alike ty t' →
      List.Forall₂ (Alike ty method) items items' →
      Alike ty method (.listing t items) (.listing t' items')
  | loopName {t t' : Typing} (word : String) : t.Alike ty t' →
      Alike ty method (.loopName t word) (.loopName t' word)
  | rootField {t t' : Typing} (field : String) : t.Alike ty t' →
      Alike ty method (.rootField t field) (.rootField t' field)
  | fieldOf {t t' : Typing} {base base' : Term} (field : String) : t.Alike ty t' →
      Alike ty method base base' → Alike ty method (.fieldOf t base field) (.fieldOf t' base' field)
  | rootCall {t t' : Typing} (name : String) {m m' : Method} {args args' : List Term} :
      t.Alike ty t' → method m m' → List.Forall₂ (Alike ty method) args args' →
      Alike ty method (.rootCall t name m args) (.rootCall t' name m' args')
  | methodOf {t t' : Typing} {base base' : Term} (name : String) {m m' : Method}
      {args args' : List Term} : t.Alike ty t' → Alike ty method base base' → method m m' →
      List.Forall₂ (Alike ty method) args args' →
      Alike ty method (.methodOf t base name m args) (.methodOf t' base' name m' args')
  | builtinOf {t t' : Typing} {base base' : Term} (builtin : Builtin) : t.Alike ty t' →
      Alike ty method base base' →
      Alike ty method (.builtinOf t base builtin) (.builtinOf t' base' builtin)
  | negation {t t' : Typing} {operand operand' : Term} : t.Alike ty t' →
      Alike ty method operand operand' →
      Alike ty method (.negation t operand) (.negation t' operand')

theorem Term.Alike.typing {ty : Ty → Ty → Prop} {method : Method → Method → Prop} {t t' : Term}
    (h : t.Alike ty method t') : t.typing.Alike ty t'.typing := by
  cases h <;> assumption

theorem Term.Alike.type {ty : Ty → Ty → Prop} {method : Method → Method → Prop} {t t' : Term}
    (h : t.Alike ty method t') : ty t.type t'.type := h.typing.type

namespace Likeness

variable (L : Likeness)

/-- Faults at one span, of one kind and about corresponding types. -/
def Faults (f f' : ExprFault) : Prop :=
  L.more ∨ (f.span = f'.span ∧ f.cause.Alike L.ty f'.cause)

/-- Two steps of compiling that succeed alike or fail alike. -/
abbrev Both {α β : Type} (R : α → β → Prop) : Except ExprFault α → Except ExprFault β → Prop :=
  Except.Matches L.more R L.Faults

/-- Terms that are built alike. -/
abbrev Terms : Term → Term → Prop := Term.Alike L.ty L.method

variable {L}

theorem Both.andThen {α α' β β' : Type} {R : α → β → Prop} {S : α' → β' → Prop}
    {x : Except ExprFault α} {y : Except ExprFault β} {f : α → Except ExprFault α'}
    {g : β → Except ExprFault β'} (h : L.Both R x y) (hfg : ∀ a b, R a b → L.Both S (f a) (g b)) :
    L.Both S (x >>= f) (y >>= g) :=
  h.bind (fun hmore _ _ => Or.inl hmore) hfg

/-- A step that does not depend on the context. -/
theorem Both.refl {α : Type} (x : Except ExprFault α) : L.Both Eq x x := by
  cases x with
  | ok a => exact rfl
  | error f => exact Or.inr ⟨rfl, .same f.cause⟩

theorem both_refuse {α β : Type} {R : α → β → Prop} (span : Span) {cause cause' : Expr.Cause}
    (h : cause.Alike L.ty cause') :
    L.Both R (refuse span cause) (refuse span cause') := Or.inr ⟨rfl, h⟩

/-- If there is more on the right, a failure on the left goes with anything. -/
theorem both_of_more {α β : Type} {R : α → β → Prop} (hmore : L.more) (f : ExprFault)
    (y : Except ExprFault β) : L.Both R (.error f : Except ExprFault α) y := by
  cases y with
  | ok b => exact hmore
  | error f' => exact Or.inl hmore

theorem isScalar {σ τ : Ty} (h : L.ty σ τ) : σ.isScalar = τ.isScalar := by
  cases L.matched h <;> rfl

theorem element? {σ τ : Ty} (h : L.ty σ τ) : Option.Rel L.ty σ.element? τ.element? := by
  cases L.matched h with
  | scalar hscalar =>
      cases σ with
      | list _ => cases hscalar
      | _ => exact .none
  | list hitem => exact .some hitem
  | object => exact .none

/-- Types that correspond have corresponding fields. -/
theorem field? {σ τ : Ty} (h : L.ty σ τ) (name : String) :
    Option.Rel L.ty (σ.object?.bind fun o => o.field? name)
      (τ.object?.bind fun o => o.field? name) := by
  cases L.matched h with
  | scalar hscalar =>
      cases σ with
      | object _ => cases hscalar
      | _ => exact .none
  | list _ => exact .none
  | object hfields _ => exact hfields name

/-- Methods that correspond, or one built-in method. -/
inductive Callables (L : Likeness) : Callable → Callable → Prop where
  | host {m n : Method} : L.method m n → Callables L (.host m) (.host n)
  | builtin (builtin : Builtin) : Callables L (.builtin builtin) (.builtin builtin)

/-- Types that correspond have corresponding methods. -/
theorem callable? {σ τ : Ty} (h : L.ty σ τ) (name : String) :
    Option.Rel L.Callables (σ.callable? name) (τ.callable? name) := by
  have hbuiltin : Option.Rel L.Callables ((Builtin.ofName? name).map .builtin)
      ((Builtin.ofName? name).map .builtin) := by
    cases Builtin.ofName? name with
    | none => exact .none
    | some builtin => exact .some (.builtin builtin)
  cases L.matched h with
  | scalar hscalar =>
      cases σ with
      | string => exact hbuiltin
      | bool | int | float => exact .none
      | list _ | object _ => cases hscalar
  | list _ => exact hbuiltin
  | @object o o' _ hmethods =>
      have hmethod := hmethods name
      rw [Ty.callable?, Ty.callable?, ObjectTy.method?, ObjectTy.method?]
      revert hmethod
      generalize o.methods.get? name = found, o'.methods.get? name = found'
      rintro (hmethod | -)
      · exact .some (.host hmethod)
      · exact .none

/-! ## Scopes that correspond -/

/-- The same names are bound to corresponding types, and the members of the contexts correspond.
Unless there is more in the second context, no names are missing in the first. -/
structure Scopes (L : Likeness) (s s' : Scope) : Prop where
  bindings : List.Forall₂ (fun b b' => b.1 = b'.1 ∧ L.ty b.2 b'.2) s.bindings s'.bindings
  field : ∀ name, Option.Matches L.more L.ty (s.root.field? name) (s'.root.field? name)
  method : ∀ name, Option.Matches L.more L.method (s.root.method? name) (s'.root.method? name)
  names : L.more ∨ (s.root.fields.names.Perm s'.root.fields.names ∧
    L.ty (.object s.root) (.object s'.root))

namespace Scopes

variable {s s' : Scope}

theorem bind (h : L.Scopes s s') (name : String) {σ τ : Ty} (hty : L.ty σ τ) :
    L.Scopes (s.bind name σ) (s'.bind name τ) where
  bindings := .cons ⟨rfl, hty⟩ h.bindings
  field := h.field
  method := h.method
  names := h.names

theorem lookup? (h : L.Scopes s s') (word : String) :
    Option.Rel L.ty (s.lookup? word) (s'.lookup? word) := by
  have hbindings := h.bindings
  rw [Scope.lookup?, Scope.lookup?]
  generalize s.bindings = bs, s'.bindings = bs' at hbindings ⊢
  induction hbindings with
  | nil => exact .none
  | @cons b b' _ _ hb _ ih =>
      obtain ⟨name, σ⟩ := b
      obtain ⟨name', τ⟩ := b'
      obtain ⟨rfl, hty⟩ := hb
      rw [List.lookup_cons, List.lookup_cons]
      cases word == name with
      | true => exact .some hty
      | false => exact ih

end Scopes

end Likeness

/-! ### The list of all names -/

namespace Scope

theorem mem_firsts {names : List String} {name : String} :
    name ∈ firsts names ↔ name ∈ names := by
  induction names with
  | nil => rfl
  | cons first rest ih =>
      rw [firsts, List.mem_cons, List.mem_cons, List.mem_filter, ih]
      by_cases h : name = first <;> simp [h]

theorem firsts_nodup (names : List String) : (firsts names).Nodup := by
  induction names with
  | nil => exact List.nodup_nil
  | cons first rest ih =>
      rw [firsts, List.nodup_cons]
      exact ⟨by simp [List.mem_filter], ih.filter _⟩

theorem firsts_perm {names names' : List String} (h : names.Perm names') :
    (firsts names).Perm (firsts names') := by
  refine (List.perm_ext_iff_of_nodup (firsts_nodup _) (firsts_nodup _)).2 fun name => ?_
  rw [mem_firsts, mem_firsts, h.mem_iff]

end Scope

theorem Likeness.Scopes.names_perm {L : Likeness} {s s' : Scope} (h : L.Scopes s s')
    (hroot : s.root.fields.names.Perm s'.root.fields.names) : s.names.Perm s'.names := by
  have hbound : s.bindings.map Prod.fst = s'.bindings.map Prod.fst := by
    have hbindings := h.bindings
    generalize s.bindings = bs, s'.bindings = bs' at hbindings ⊢
    induction hbindings with
    | nil => rfl
    | cons hb _ ih => rw [List.map_cons, List.map_cons, hb.1, ih]
  rw [Scope.names, Scope.names, hbound]
  exact Scope.firsts_perm (hroot.append_left _)

/-! ## Resolving -/

namespace Likeness

variable {L : Likeness} {source : Source} {s s' : Scope}

section

variable {span : Span} {location : Location}

theorem listing {items items' : List Term} (h : List.Forall₂ L.Terms items items') :
    L.Both L.Terms (Resolve.listing span location items)
      (Resolve.listing span location items') := by
  cases h with
  | nil => exact both_refuse span (.same _)
  | @cons first first' rest rest' hfirst hrest =>
      have hfind : Option.Rel L.Terms (rest.find? fun item => !item.type.same first.type)
          (rest'.find? fun item => !item.type.same first'.type) := by
        induction hrest with
        | nil => exact .none
        | cons hitem _ ih =>
            rw [List.find?_cons, List.find?_cons, L.same hitem.type hfirst.type]
            cases !Ty.same _ first'.type with
            | true => exact .some hitem
            | false => exact ih
      rw [Resolve.listing, Resolve.listing]
      revert hfind
      generalize rest.find? _ = odd, rest'.find? _ = odd'
      rintro (hodd | -)
      · exact both_refuse span (.mixedList hfirst.type hodd.type)
      · exact Term.Alike.listing ⟨L.list hfirst.type, rfl⟩ (.cons hfirst hrest)

theorem name (h : L.Scopes s s') (word : String) :
    L.Both L.Terms (Resolve.name s span location word) (Resolve.name s' span location word) := by
  have hlookup := h.lookup? word
  have hfield := h.field word
  rw [Resolve.name, Resolve.name]
  revert hlookup hfield
  generalize s.lookup? word = bound, s'.lookup? word = bound'
  generalize s.root.field? word = found, s'.root.field? word = found'
  rintro (hbound | -) hfield
  · exact Term.Alike.loopName word ⟨hbound, rfl⟩
  · cases found with
    | some σ =>
        cases found' with
        | some τ => exact Term.Alike.rootField word ⟨hfield, rfl⟩
        | none => exact hfield.elim
    | none =>
        cases found' with
        | some τ => exact hfield
        | none =>
            rcases h.names with hmore | ⟨hnames, -⟩
            · exact both_of_more hmore _ _
            · exact both_refuse span (.unknownName word (h.names_perm hnames))

theorem field {base base' : Term} (h : L.Terms base base') (name : String) :
    L.Both L.Terms (Resolve.field span location base name)
      (Resolve.field span location base' name) := by
  have hfield := field? h.type name
  rw [Resolve.field, Resolve.field]
  revert hfield
  generalize base.type.object?.bind _ = found, base'.type.object?.bind _ = found'
  rintro (hfound | -)
  · exact Term.Alike.fieldOf name ⟨hfound, rfl⟩ h
  · exact both_refuse span (.unknownField name h.type)

theorem negation {operand operand' : Term} (h : L.Terms operand operand') :
    L.Both L.Terms (Resolve.negation span location operand)
      (Resolve.negation span location operand') := by
  rw [Resolve.negation, Resolve.negation, L.same h.type (L.scalar rfl)]
  split
  · exact Term.Alike.negation ⟨L.scalar rfl, rfl⟩ h
  · exact both_refuse span (.negationOf h.type)

theorem count {m n : Method} (h : L.method m n) (name : String) (args : List Expr) :
    L.Both Eq (Resolve.count span name m.params args) (Resolve.count span name n.params args) := by
  rw [Resolve.count, Resolve.count, (L.params h).length_eq]
  exact .refl _

end

mutual

/-- Under corresponding scopes an expression resolves alike or fails alike. -/
theorem resolve (h : L.Scopes s s') : ∀ e : Expr,
    L.Both L.Terms (e.resolve source s) (e.resolve source s')
  | .constant literal span => by
      have hscalar : literal.type.isScalar = true := by cases literal <;> rfl
      exact Term.Alike.constant literal ⟨L.scalar hscalar, rfl⟩
  | .listing items span => by
      simp only [Expr.resolve]
      exact (resolveAll h items).andThen fun _ _ hitems => listing hitems
  | .ident word span => by
      simp only [Expr.resolve]
      exact name h word
  | .rootCall name args span => by
      simp only [Expr.resolve]
      have hmethod := h.method name
      revert hmethod
      generalize s.root.method? name = found, s'.root.method? name = found'
      intro hmethod
      cases found with
      | some m =>
          cases found' with
          | some n =>
              refine (count hmethod name args).andThen fun _ _ _ => ?_
              refine (resolveArgs h args name 0 (L.params hmethod)).andThen fun _ _ hargs => ?_
              exact Term.Alike.rootCall name ⟨L.returns hmethod, rfl⟩ hmethod hargs
          | none => exact hmethod.elim
      | none =>
          cases found' with
          | some n => exact both_of_more hmethod _ _
          | none =>
              rcases h.names with hmore | ⟨-, hroot⟩
              · exact both_of_more hmore _ _
              · exact both_refuse span (.unknownRootMethod name hroot)
  | .fieldOf base field span => by
      simp only [Expr.resolve]
      exact (resolve h base).andThen fun _ _ hbase => Likeness.field hbase field
  | .methodOf base name args span => by
      simp only [Expr.resolve]
      refine (resolve h base).andThen fun b b' hbase => ?_
      have hcallable := callable? hbase.type name
      revert hcallable
      generalize b.type.callable? name = found, b'.type.callable? name = found'
      rintro (hfound | -)
      · cases hfound with
        | host hmethod =>
            refine (count hmethod name args).andThen fun _ _ _ => ?_
            refine (resolveArgs h args name 0 (L.params hmethod)).andThen fun _ _ hargs => ?_
            exact Term.Alike.methodOf name ⟨L.returns hmethod, rfl⟩ hbase hmethod hargs
        | builtin builtin =>
            dsimp only
            split
            · refine Term.Alike.builtinOf builtin ⟨L.scalar ?_, rfl⟩ hbase
              cases builtin <;> rfl
            · exact both_refuse span (.same _)
      · exact both_refuse span (.unknownMethod name hbase.type)
  | .negation operand span => by
      simp only [Expr.resolve]
      exact (resolve h operand).andThen fun _ _ hoperand => negation hoperand

theorem resolveAll (h : L.Scopes s s') : ∀ es : List Expr,
    L.Both (List.Forall₂ L.Terms) (Expr.resolveAll source s es) (Expr.resolveAll source s' es)
  | [] => List.Forall₂.nil
  | e :: es => by
      simp only [Expr.resolveAll]
      refine (resolve h e).andThen fun _ _ he => (resolveAll h es).andThen fun _ _ hes => ?_
      exact List.Forall₂.cons he hes

theorem resolveArgs (h : L.Scopes s s') : ∀ (es : List Expr) (method : String) (index : Nat)
    {params params' : List Ty}, List.Forall₂ L.ty params params' →
      L.Both (List.Forall₂ L.Terms) (Expr.resolveArgs source s method index params es)
        (Expr.resolveArgs source s' method index params' es)
  | [], _, _, _, _, _ => List.Forall₂.nil
  | e :: es, method, index, _, _, hparams => by
      cases hparams with
      | nil => exact List.Forall₂.nil
      | @cons σ τ params params' hparam hparams =>
          simp only [Expr.resolveArgs]
          refine (resolve h e).andThen fun t t' ht => ?_
          rw [L.same ht.type hparam]
          split
          · exact both_refuse _ (.argumentType index method hparam ht.type)
          · refine (resolveArgs h es method (index + 1) hparams).andThen fun _ _ hes => ?_
            exact List.Forall₂.cons ht hes

end

end Likeness

end TypedTemplate
