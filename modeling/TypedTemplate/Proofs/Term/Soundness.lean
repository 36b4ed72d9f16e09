/-
# `TypedTemplate.Proofs.Term.Soundness` — typed terms evaluate to values of their types

Suppose the context has its type and every callback keeps to the result type that it was
declared with.  Then a typed term evaluates to a value of its type, or it fails because
something was null or because a callback failed (`Cause.Excusable`); no other failure is
possible.  The proof is the usual one, by induction on the typing of the term
(`Term.eval_sound`), with one thing to watch: where two types only have to be equal, a
value of the one must be a value of the other, which needs that no object type declares a
field twice.  Declaring a field again overwrites it, so host declarations never do.

The types that come up are those that the context's type leads to, lists of them, and
scalars (`Term.Typed.within`).  The callbacks of no other object type are ever called, and
nothing is assumed of them.
-/
import TypedTemplate.Proofs.Except
import TypedTemplate.Proofs.Render.Binding
import TypedTemplate.Proofs.Term.Typing
import TypedTemplate.Proofs.Value.Typing

namespace TypedTemplate

/-! ## What the host promises -/

/-- Called as declared, the callback fails or answers with a value of the declared type. -/
def Method.Keeps (o : ObjectTy) (m : Method) : Prop :=
  ∀ receiver args v, receiver ≠ .null → receiver.HasType (.object o) →
    List.Forall₂ Value.HasType args m.params → m.call receiver args = .ok v →
      v.HasType m.returns

namespace ObjectTy

/-- No object type that the context's type leads to declares a field twice. -/
def DistinctFields (context : ObjectTy) : Prop :=
  ∀ o : ObjectTy, (Ty.object context).Reaches (.object o) → o.fields.Distinct

theorem empty_distinct (name : String) : (empty name).fields.Distinct := List.nodup_nil

/-- Declaring fields keeps them distinct. -/
theorem withField_distinct {o : ObjectTy} (h : o.fields.Distinct) (name : String) (type : Ty) :
    (o.withField name type).fields.Distinct :=
  h.put name type

/-- All callbacks that the context's type leads to keep to their result types. -/
def CallbacksKeep (context : ObjectTy) : Prop :=
  ∀ (o : ObjectTy) (name : String) (m : Method), (Ty.object context).Reaches (.object o) →
    o.method? name = some m → m.Keeps o

end ObjectTy

/-- The causes for which a rendering may stop although the context is of its type: something
was null, or a callback that was called as declared has failed. -/
inductive Render.Cause.Excusable (context : ObjectTy) : Render.Cause → Prop where
  | fieldOfNull (name : String) : Excusable context (.fieldOfNull name)
  | callOnNull (method : String) : Excusable context (.callOnNull method)
  | negationOfNull : Excusable context (.negationOf .null)
  | notIterableNull : Excusable context (.notIterable .null)
  | conditionNull : Excusable context (.condition .null)
  | callbackFailed {o : ObjectTy} {name reason : String} {m : Method} {receiver : Value}
      {args : List Value} :
      (Ty.object context).Reaches (.object o) → o.method? name = some m → receiver ≠ .null →
      receiver.HasType (.object o) → List.Forall₂ Value.HasType args m.params →
      m.call receiver args = .error reason → Excusable context (.callbackFailed name reason)

/-! ## The types of terms -/

/-- The bindings of a scope add no object types to those of the context. -/
def Scope.Within (scope : Scope) : Prop :=
  ∀ word τ, scope.lookup? word = some τ → τ.Within scope.root

theorem Scope.Within.empty {context : ObjectTy} : Scope.Within ⟨context, []⟩ := by
  intro word τ h
  simp [Scope.lookup?] at h

theorem Scope.Within.bind {scope : Scope} (h : scope.Within) {name : String} {τ : Ty}
    (hτ : τ.Within scope.root) : (scope.bind name τ).Within := by
  intro word σ hw
  simp only [Scope.lookup?, Scope.bind, List.lookup_cons] at hw
  cases hn : word == name with
  | true =>
      rw [hn] at hw
      cases hw
      exact hτ
  | false =>
      rw [hn] at hw
      exact h word σ hw

theorem Term.Typed.within {scope : Scope} (hs : scope.Within) {t : Term} (ht : t.Typed scope) :
    t.type.Within scope.root := by
  induction ht with
  | constant literal => cases literal <;> exact Ty.Within.of_isScalar rfl
  | listing _ _ ih => exact Ty.Within.list (ih _ List.mem_cons_self)
  | loopName h => exact hs _ _ h
  | rootField _ hf => exact Ty.Within.refl.of_reaches (.field .here hf)
  | fieldOf _ ho hf ih =>
      rw [ho] at ih
      exact ih.of_reaches (.field .here hf)
  | rootCall hm => exact Ty.Within.refl.of_reaches (.result .here hm)
  | methodOf _ ho hm _ _ ih =>
      rw [ho] at ih
      exact ih.of_reaches (.result .here hm)
  | @builtinOf _ _ builtin => cases builtin <;> exact Ty.Within.of_isScalar rfl
  | negation => exact Ty.Within.of_isScalar rfl

/-! ## Stacks -/

/-- The context is of its type, and so is the item of every loop. -/
structure Stack.HasTypes (scope : Scope) (s : Stack) : Prop where
  root : s.root.HasType (.object scope.root)
  bindings : s.Binds Value.HasType scope

theorem Stack.HasTypes.bind {scope : Scope} {s : Stack} (h : s.HasTypes scope) {name : String}
    {v : Value} {τ : Ty} (hv : v.HasType τ) : (s.bind name v).HasTypes (scope.bind name τ) :=
  ⟨h.root, h.bindings.bind hv⟩

/-! ## Evaluation -/

/-- A value of the type, or an excusable failure. -/
abbrev Sound (context : ObjectTy) (τ : Ty) : Except Render.Error Value → Prop :=
  Except.Obeys (·.HasType τ) (fun e => e.cause.Excusable context)

namespace Sound

variable {context : ObjectTy} {s : Stack} {location : Location}

/-- Reading a declared field. -/
theorem read {v : Value} {o : ObjectTy} (hv : v.HasType (.object o)) {field : String} {τ : Ty}
    (hf : o.field? field = some τ) : Sound context τ (v.read s location field) := by
  rcases hv.object_inv with rfl | ⟨fields, rfl, hfields⟩
  · exact .fieldOfNull field
  · obtain ⟨w, hw, hty⟩ := hfields field τ hf
    simp only [Value.read, hw]
    exact hty

/-- Comparing a value of the type with the type. -/
theorem check {v : Value} {τ : Ty} (hv : v.HasType τ) :
    Sound context τ (Typing.check ⟨τ, location⟩ s v) := by
  simp only [Typing.check, hv.conforms, if_true]
  exact hv

/-- Calling a declared method as declared. -/
theorem invoke {o : ObjectTy} {name : String} {m : Method} (hk : m.Keeps o)
    (ho : (Ty.object context).Reaches (.object o)) (hm : o.method? name = some m)
    {receiver : Value} (hnull : receiver ≠ .null) (hr : receiver.HasType (.object o))
    {args : List Value} (ha : List.Forall₂ Value.HasType args m.params) :
    Sound context m.returns (m.invoke s ⟨m.returns, location⟩ name receiver args) := by
  rw [Method.invoke]
  cases hcall : m.call receiver args with
  | ok v => exact check (hk receiver args v hnull hr ha hcall)
  | error reason => exact .callbackFailed ho hm hnull hr ha hcall

/-- Calling a built-in method on a list or string. -/
theorem builtin {τ : Ty} (hτ : τ = .string ∨ ∃ σ, τ = .list σ) {v : Value} (hv : v.HasType τ)
    (b : Builtin) : Sound context b.returns (b.eval s location τ v) := by
  have happly : ∀ n, (b.apply n).HasType b.returns := by
    intro n
    cases b with
    | size => exact .int _
    | isEmpty => exact .bool _
  rcases hτ with rfl | ⟨σ, rfl⟩
  · rcases hv.string_inv with rfl | ⟨str, rfl⟩
    · exact .callOnNull b.name
    · exact happly _
  · rcases hv.list_inv with rfl | ⟨items, rfl, -⟩
    · exact .callOnNull b.name
    · exact happly _

/-- Negating a truth value. -/
theorem negate {v : Value} (hv : v.HasType .bool) : Sound context .bool (v.negate s location) := by
  rcases hv.bool_inv with rfl | ⟨b, rfl⟩
  · exact .negationOfNull
  · exact .bool _

end Sound

/-- Evaluating terms one after another. -/
theorem Term.evalAll_obeys {s : Stack} {P : Term → Value → Prop} {E : Render.Error → Prop} :
    ∀ {ts : List Term}, (∀ t ∈ ts, (t.eval s).Obeys (P t) E) →
      (Term.evalAll s ts).Obeys (fun vs => List.Forall₂ P ts vs) E
  | [], _ => .nil
  | t :: ts, h => by
      simp only [Term.evalAll]
      refine (h t List.mem_cons_self).bind ?_
      intro v hv
      have hrest := Term.evalAll_obeys fun u hu => h u (List.mem_cons_of_mem _ hu)
      exact hrest.bind fun vs hvs => .cons hv hvs

/-- Every member of the second list has a partner in the first. -/
theorem exists_partner {α β : Type} {R : α → β → Prop} {as : List α} {bs : List β}
    (h : List.Forall₂ R as bs) : ∀ b ∈ bs, ∃ a ∈ as, R a b := by
  induction h with
  | nil => simp
  | cons hab _ ih =>
      intro b hb
      rcases List.mem_cons.mp hb with rfl | hb
      · exact ⟨_, List.mem_cons_self, hab⟩
      · obtain ⟨a, ha, hR⟩ := ih b hb
        exact ⟨a, List.mem_cons_of_mem _ ha, hR⟩

section

variable {scope : Scope} {s : Stack}

/-- The arguments of a call have the types of the parameters. -/
theorem Value.args_hasType (hd : scope.root.DistinctFields) {args : List Term}
    (hw : ∀ t ∈ args, t.type.Within scope.root) {vs : List Value}
    (hv : List.Forall₂ (fun t v => v.HasType t.type) args vs) {params : List Ty}
    (hfit : List.Forall₂ (fun t τ => t.type.same τ = true) args params) :
    List.Forall₂ Value.HasType vs params := by
  induction hfit generalizing vs with
  | nil => cases hv; exact .nil
  | @cons t τ ts τs hs _ ih =>
      cases hv with
      | cons hvt hvs =>
          have hty := hvt.of_same (fun o ho => hd o (hw t List.mem_cons_self o ho)) hs
          exact .cons hty (ih (fun u hu => hw u (List.mem_cons_of_mem _ hu)) hvs)

theorem Term.eval_sound (hd : scope.root.DistinctFields) (hk : scope.root.CallbacksKeep)
    (hw : scope.Within) (hs : s.HasTypes scope) {t : Term} (ht : t.Typed scope) :
    Sound scope.root t.type (t.eval s) := by
  induction ht with
  | constant literal =>
      cases literal with
      | bool b => exact Value.HasType.bool b
      | int i => exact Value.HasType.int i
      | float x => exact Value.HasType.float x
      | string str => exact Value.HasType.string str
  | @listing _ first rest hitems hsame ih =>
      simp only [Term.eval]
      refine (Term.evalAll_obeys ih).bind fun vs hvs => Value.HasType.list ?_
      intro v hv
      obtain ⟨t, ht, hty⟩ := exists_partner hvs v hv
      rcases List.mem_cons.mp ht with rfl | hrest
      · exact hty
      · exact hty.of_same (fun o ho => hd o ((hitems t ht).within hw o ho)) (hsame t hrest)
  | @loopName _ word τ h =>
      obtain ⟨v, hv, hty⟩ := hs.bindings.lookup? h
      simp only [Term.eval, hv]
      exact hty
  | rootField _ hf =>
      simp only [Term.eval]
      exact Sound.read hs.root hf
  | fieldOf _ ho hf ih =>
      simp only [Term.eval]
      rw [ho] at ih
      exact ih.bind fun v hv => Sound.read hv hf
  | @rootCall _ name m args hm hargs hfit ih =>
      simp only [Term.eval]
      split
      · exact .callOnNull name
      · rename_i hnull
        have hroot : s.root ≠ .null := fun h => hnull (by rw [h]; rfl)
        refine (Term.evalAll_obeys ih).bind ?_
        intro vs hvs
        exact Sound.invoke (hk _ name m .here hm) .here hm hroot hs.root
          (Value.args_hasType hd (fun t ht => (hargs t ht).within hw) hvs hfit)
  | @methodOf _ base name o m args hb ho hm hargs hfit ihb ih =>
      simp only [Term.eval]
      rw [ho] at ihb
      have hreach : (Ty.object scope.root).Reaches (.object o) := by
        have := hb.within hw
        rw [ho] at this
        exact this o .here
      refine ihb.bind ?_
      intro r hr
      split
      · exact .callOnNull name
      · rename_i hnull
        have hne : r ≠ .null := fun h => hnull (by rw [h]; rfl)
        refine (Term.evalAll_obeys ih).bind ?_
        intro vs hvs
        exact Sound.invoke (hk o name m hreach hm) hreach hm hne hr
          (Value.args_hasType hd (fun t ht => (hargs t ht).within hw) hvs hfit)
  | @builtinOf _ base b _ hty ih =>
      simp only [Term.eval]
      exact ih.bind fun v hv => Sound.builtin hty hv b
  | negation _ ho ih =>
      simp only [Term.eval]
      rw [ho] at ih
      exact ih.bind fun v hv => Sound.negate hv

end

end TypedTemplate
