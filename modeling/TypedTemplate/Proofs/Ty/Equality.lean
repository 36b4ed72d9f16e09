/-
# `TypedTemplate.Proofs.Ty.Equality` — equality of types

What the comparison of two types looks at, said without the comparison: two object types are
equal if they have the same name, and under every name either equal fields or none, and
either methods of equal signature or none (`Ty.same_object_iff`).  Nothing is said there of an
order, and nothing of callbacks.

This needs types in which nothing is declared twice (`Ty.Proper`); others cannot be built by
declaring members one after another (`Proper.withField`, `Proper.withMethod`).  Between such types
`Ty.same` is an equivalence; `Ty.Equal` is what it says of them.
-/
import Mathlib.Data.List.Forall2
import TypedTemplate.Proofs.Ty.Same

namespace TypedTemplate

/-! ## Collections that agree name by name -/

namespace Entries

variable {α β γ : Type} {R : α → β → Prop} {fs : Entries α} {gs : Entries β}
  {hs : Entries γ}

/-- Under every name the two have related entries, or neither has one. -/
def Agree (R : α → β → Prop) (fs : Entries α) (gs : Entries β) : Prop :=
  ∀ name, Option.Rel R (fs.get? name) (gs.get? name)

theorem get?_of_mem (hd : fs.Distinct) {name : String} {a : α} (h : (name, a) ∈ fs) :
    fs.get? name = some a := by
  induction fs with
  | nil => cases h
  | cons d fs ih =>
      obtain ⟨key, b⟩ := d
      obtain ⟨hkey, hrest⟩ := List.nodup_cons.1 hd
      rcases List.mem_cons.1 h with heq | hmem
      · cases heq
        simp [get?]
      · have hne : name ≠ key := by
          rintro rfl
          exact hkey (List.mem_map.2 ⟨(name, a), hmem, rfl⟩)
        rw [get?, List.lookup_cons, beq_eq_false_iff_ne.2 hne]
        exact ih hrest hmem

theorem mem_of_mem_put {name : String} {a : α} {d : String × α} (h : d ∈ fs.put name a) :
    d = (name, a) ∨ d ∈ fs := by
  induction fs with
  | nil => exact Or.inl (List.mem_singleton.1 h)
  | cons e fs ih =>
      obtain ⟨key, b⟩ := e
      rw [put] at h
      split at h
      · rename_i hkey
        subst hkey
        exact (List.mem_cons.1 h).imp_right (List.mem_cons_of_mem _)
      · rcases List.mem_cons.1 h with rfl | hrest
        · exact Or.inr List.mem_cons_self
        · exact (ih hrest).imp_right (List.mem_cons_of_mem _)

theorem get?_eq_none {name : String} : fs.get? name = none ↔ name ∉ fs.names := by
  rw [mem_names, Option.eq_none_iff_forall_ne_some]
  push Not
  rfl

/-- Related entries of two collections that agree. -/
theorem Agree.some (h : Agree R fs gs) {name : String} {a : α} (hf : fs.get? name = some a) :
    ∃ b, gs.get? name = some b ∧ R a b := by
  have hrel := h name
  rw [hf] at hrel
  cases hg : gs.get? name with
  | none =>
      rw [hg] at hrel
      cases hrel
  | some b =>
      rw [hg] at hrel
      cases hrel with
      | some hab => exact ⟨b, rfl, hab⟩

theorem Agree.none (h : Agree R fs gs) {name : String} (hf : fs.get? name = none) :
    gs.get? name = none := by
  have hrel := h name
  rw [hf] at hrel
  cases hg : gs.get? name with
  | none => rfl
  | some b =>
      rw [hg] at hrel
      cases hrel

theorem Agree.imp {S : α → β → Prop} (h : Agree R fs gs)
    (hRS : ∀ d ∈ fs, ∀ e ∈ gs, R d.2 e.2 → S d.2 e.2) : Agree S fs gs := by
  intro name
  cases hf : fs.get? name with
  | none =>
      rw [h.none hf]
      exact .none
  | some a =>
      obtain ⟨b, hb, hab⟩ := h.some hf
      rw [hb]
      exact .some (hRS _ (mem_of_get? hf) _ (mem_of_get? hb) hab)

theorem Agree.refl {R : α → α → Prop} (h : ∀ d ∈ fs, R d.2 d.2) : Agree R fs fs := by
  intro name
  cases hf : fs.get? name with
  | none => exact .none
  | some a => exact .some (h _ (mem_of_get? hf))

/-- Two collections that agree with the same one agree with each other. -/
theorem Agree.euclid {S : α → γ → Prop} {T : β → γ → Prop} (h : Agree R fs gs)
    (h' : Agree S fs hs) (hT : ∀ d ∈ fs, ∀ e ∈ gs, ∀ k ∈ hs, R d.2 e.2 → S d.2 k.2 → T e.2 k.2) :
    Agree T gs hs := by
  intro name
  cases hf : fs.get? name with
  | none =>
      rw [h.none hf, h'.none hf]
      exact .none
  | some a =>
      obtain ⟨b, hb, hab⟩ := h.some hf
      obtain ⟨c, hc, hac⟩ := h'.some hf
      rw [hb, hc]
      exact .some (hT _ (mem_of_get? hf) _ (mem_of_get? hb) _ (mem_of_get? hc) hab hac)

theorem Agree.names_perm (h : Agree R fs gs) (hd : fs.Distinct) (hd' : gs.Distinct) :
    fs.names.Perm gs.names := by
  refine (List.perm_ext_iff_of_nodup hd hd').2 fun name => ?_
  constructor
  · intro hmem
    obtain ⟨a, ha⟩ := mem_names.1 hmem
    obtain ⟨b, hb, -⟩ := h.some ha
    exact mem_names.2 ⟨b, hb⟩
  · intro hmem
    by_contra hnot
    exact get?_eq_none.1 (h.none (get?_eq_none.2 hnot)) hmem

/-- Collections of one size agree once all entries of the first are found in the second: names
that do not repeat leave none of the second over. -/
theorem agree_iff (hd : fs.Distinct) (hd' : gs.Distinct) : Agree R fs gs ↔
    fs.length = gs.length ∧ ∀ d ∈ fs, ∃ b, gs.get? d.1 = some b ∧ R d.2 b := by
  constructor
  · intro h
    refine ⟨by simpa [names] using (h.names_perm hd hd').length_eq, fun d hmem => ?_⟩
    exact h.some (get?_of_mem hd hmem)
  · rintro ⟨hlength, hfound⟩ name
    cases hf : fs.get? name with
    | some a =>
        obtain ⟨b, hg, hab⟩ := hfound _ (mem_of_get? hf)
        rw [hg]
        exact .some hab
    | none =>
        have hsub : fs.names ⊆ gs.names := by
          intro key hkey
          obtain ⟨a, ha⟩ := mem_names.1 hkey
          obtain ⟨b, hb, -⟩ := hfound _ (mem_of_get? ha)
          exact mem_names.2 ⟨b, hb⟩
        have hperm : fs.names.Perm gs.names :=
          (List.subperm_of_subset hd hsub).perm_of_length_le (by simp [names, hlength])
        rw [get?_eq_none.2 fun hmem => get?_eq_none.1 hf (hperm.mem_iff.2 hmem)]
        exact .none

end Entries

/-! ## What is compared -/

namespace Ty

theorem sameAll_iff {σs τs : List Ty} :
    sameAll σs τs = true ↔ List.Forall₂ (fun σ τ => σ.same τ = true) σs τs := by
  induction σs generalizing τs with
  | nil => cases τs <;> simp [sameAll]
  | cons σ σs ih => cases τs <;> simp [sameAll, ih]

theorem sameFields_iff {fs gs : Entries Ty} : sameFields fs gs = true ↔
    ∀ d ∈ fs, ∃ τ, gs.get? d.1 = some τ ∧ d.2.same τ = true := by
  induction fs with
  | nil => simp [sameFields]
  | cons d fs ih =>
      obtain ⟨name, σ⟩ := d
      rw [sameFields, Bool.and_eq_true, ih, List.forall_mem_cons]
      cases gs.get? name <;> simp

theorem sameMethods_iff {ms ns : Entries Method} : sameMethods ms ns = true ↔
    ∀ d ∈ ms, ∃ n, ns.get? d.1 = some n ∧ d.2.same n = true := by
  induction ms with
  | nil => simp [sameMethods]
  | cons d ms ih =>
      obtain ⟨name, m⟩ := d
      rw [sameMethods, Bool.and_eq_true, ih, List.forall_mem_cons]
      cases ns.get? name <;> simp

end Ty

theorem Method.same_iff {m n : Method} : m.same n = true ↔
    List.Forall₂ (fun σ τ => σ.same τ = true) m.params n.params ∧
      m.returns.same n.returns = true := by
  obtain ⟨params, returns, call⟩ := m
  obtain ⟨params', returns', call'⟩ := n
  rw [same, Bool.and_eq_true, Ty.sameAll_iff]
  rfl

/-- No object type in it declares a field or a method twice. -/
inductive Ty.Proper : Ty → Prop where
  | bool : Proper .bool
  | int : Proper .int
  | float : Proper .float
  | string : Proper .string
  | list {τ : Ty} : Proper τ → Proper (.list τ)
  | object {o : ObjectTy} : o.fields.Distinct → o.methods.Distinct →
      (∀ d ∈ o.fields, Proper d.2) → (∀ d ∈ o.methods, ∀ τ ∈ d.2.params, Proper τ) →
      (∀ d ∈ o.methods, Proper d.2.returns) → Proper (.object o)

namespace Ty

/-- Equal object types have the same name, and under every name equal members or none. -/
theorem same_object_iff {o o' : ObjectTy} (h : (object o).Proper) (h' : (object o').Proper) :
    (object o).same (.object o') = true ↔ o.name = o'.name ∧
      o.fields.Agree (fun σ τ => σ.same τ = true) o'.fields ∧
      o.methods.Agree (fun m n => m.same n = true) o'.methods := by
  cases h with
  | object hf hm _ _ _ =>
      cases h' with
      | object hf' hm' _ _ _ =>
          rw [Entries.agree_iff hf hf', Entries.agree_iff hm hm']
          obtain ⟨name, fields, methods⟩ := o
          obtain ⟨name', fields', methods'⟩ := o'
          simp only [same, ObjectTy.same, Bool.and_eq_true, beq_iff_eq, sameFields_iff,
            sameMethods_iff, ObjectTy.name, ObjectTy.fields, ObjectTy.methods, and_assoc]

namespace Proper

variable {o : ObjectTy} {name : String}

/-- Without members there is nothing to declare twice. -/
theorem empty (name : String) : (Ty.object (.empty name)).Proper :=
  .object List.nodup_nil List.nodup_nil (by simp [ObjectTy.empty, ObjectTy.fields])
    (by simp [ObjectTy.empty, ObjectTy.methods]) (by simp [ObjectTy.empty, ObjectTy.methods])

/-- A field that is declared again is declared once. -/
theorem withField {τ : Ty} (h : (Ty.object o).Proper) (hτ : τ.Proper) :
    (Ty.object (o.withField name τ)).Proper := by
  cases h with
  | object hf hm hfields hparams hreturns =>
      refine .object (hf.put name τ) hm (fun d hd => ?_) hparams hreturns
      rcases Entries.mem_of_mem_put hd with rfl | hd
      · exact hτ
      · exact hfields d hd

/-- A method that is declared again is declared once. -/
theorem withMethod {m : Method} (h : (Ty.object o).Proper) (hps : ∀ τ ∈ m.params, τ.Proper)
    (hret : m.returns.Proper) : (Ty.object (o.withMethod name m)).Proper := by
  cases h with
  | object hf hm hfields hparams hreturns =>
      refine .object hf (hm.put name m) hfields (fun d hd => ?_) (fun d hd => ?_)
      · rcases Entries.mem_of_mem_put hd with rfl | hd
        · exact hps
        · exact hparams d hd
      · rcases Entries.mem_of_mem_put hd with rfl | hd
        · exact hret
        · exact hreturns d hd

end Proper

/-! ## An equivalence -/

theorem same_refl {τ : Ty} (h : τ.Proper) : τ.same τ = true := by
  induction h with
  | bool | int | float | string => rfl
  | list _ ih =>
      rw [same]
      exact ih
  | object hf hm hfields hparams hreturns ihf ihp ihr =>
      have hproper := Proper.object hf hm hfields hparams hreturns
      refine (same_object_iff hproper hproper).2 ⟨rfl, .refl ihf, .refl fun d hd => ?_⟩
      exact Method.same_iff.2 ⟨List.forall₂_same.2 (ihp d hd), ihr d hd⟩

theorem forall₂_euclid {α β γ : Type} {R : α → β → Prop} {S : α → γ → Prop} {T : β → γ → Prop}
    {as : List α} {bs : List β} {cs : List γ} (h : List.Forall₂ R as bs)
    (h' : List.Forall₂ S as cs)
    (hT : ∀ a ∈ as, ∀ b ∈ bs, ∀ c ∈ cs, R a b → S a c → T b c) : List.Forall₂ T bs cs := by
  induction h generalizing cs with
  | nil =>
      cases h'
      exact .nil
  | cons hab _ ih =>
      cases h' with
      | cons hac hrest =>
          refine .cons (hT _ (by simp) _ (by simp) _ (by simp) hab hac) (ih hrest ?_)
          intro a ha b hb c hc
          exact hT a (by simp [ha]) b (by simp [hb]) c (by simp [hc])

/-- Two types that are equal to the same one are equal to each other. -/
theorem same_euclid {σ : Ty} (h : σ.Proper) : ∀ {τ ρ : Ty}, τ.Proper → ρ.Proper →
    σ.same τ = true → σ.same ρ = true → τ.same ρ = true := by
  induction h with
  | bool | int | float | string =>
      intro τ ρ _ _ hτ hρ
      cases τ <;> simp [same] at hτ
      cases ρ <;> simp [same] at hρ
      rfl
  | list _ ih =>
      intro τ ρ hτ hρ hsτ hsρ
      cases hτ with
      | list hτ =>
          cases hρ with
          | list hρ =>
              rw [same] at hsτ hsρ ⊢
              exact ih hτ hρ hsτ hsρ
          | _ => simp [same] at hsρ
      | _ => simp [same] at hsτ
  | object hf hm hfields hparams hreturns ihf ihp ihr =>
      intro τ ρ hτ hρ hsτ hsρ
      have hσ := Proper.object hf hm hfields hparams hreturns
      cases hτ with
      | object hf' hm' hfields' hparams' hreturns' =>
          have hτ := Proper.object hf' hm' hfields' hparams' hreturns'
          cases hρ with
          | object hf'' hm'' hfields'' hparams'' hreturns'' =>
              have hρ := Proper.object hf'' hm'' hfields'' hparams'' hreturns''
              obtain ⟨hname, hfield, hmethod⟩ := (same_object_iff hσ hτ).1 hsτ
              obtain ⟨hname', hfield', hmethod'⟩ := (same_object_iff hσ hρ).1 hsρ
              refine (same_object_iff hτ hρ).2 ⟨hname.symm.trans hname', ?_, ?_⟩
              · refine hfield.euclid hfield' fun d hd e he k hk hde hdk => ?_
                exact ihf d hd (hfields' e he) (hfields'' k hk) hde hdk
              · refine hmethod.euclid hmethod' fun d hd e he k hk hde hdk => ?_
                obtain ⟨hall, hret⟩ := Method.same_iff.1 hde
                obtain ⟨hall', hret'⟩ := Method.same_iff.1 hdk
                refine Method.same_iff.2
                  ⟨?_, ihr d hd (hreturns' e he) (hreturns'' k hk) hret hret'⟩
                refine forall₂_euclid hall hall' fun a ha b hb c hc hab hac => ?_
                exact ihp d hd a ha (hparams' e he b hb) (hparams'' k hk c hc) hab hac
          | _ => simp [same] at hsρ
      | _ => simp [same] at hsτ

theorem same_symm {σ τ : Ty} (hσ : σ.Proper) (hτ : τ.Proper) (h : σ.same τ = true) :
    τ.same σ = true := same_euclid hσ hτ hσ h (same_refl hσ)

theorem same_trans {σ τ ρ : Ty} (hσ : σ.Proper) (hτ : τ.Proper) (hρ : ρ.Proper)
    (h : σ.same τ = true) (h' : τ.same ρ = true) : σ.same ρ = true :=
  same_euclid hτ hσ hρ (same_symm hσ hτ h) h'

/-- What the order of members and the callbacks are does not count. -/
theorem same_of_perm {o o' : ObjectTy} (h : (object o).Proper) (h' : (object o').Proper)
    (hname : o.name = o'.name) (hfields : o.fields.Perm o'.fields)
    (hmethods : (o.methods.map fun d => (d.1, d.2.params, d.2.returns)).Perm
      (o'.methods.map fun d => (d.1, d.2.params, d.2.returns))) :
    (object o).same (.object o') = true := by
  cases h with
  | object hf hm hproper hparams hreturns =>
      cases h' with
      | object hf' hm' hproper' hparams' hreturns' =>
          refine (same_object_iff (.object hf hm hproper hparams hreturns)
            (.object hf' hm' hproper' hparams' hreturns')).2 ⟨hname, ?_, ?_⟩
          · refine (Entries.agree_iff hf hf').2 ⟨hfields.length_eq, fun d hd => ?_⟩
            exact ⟨d.2, Entries.get?_of_mem hf' (hfields.mem_iff.1 hd), same_refl (hproper d hd)⟩
          · refine (Entries.agree_iff hm hm').2 ⟨by simpa using hmethods.length_eq, fun d hd => ?_⟩
            obtain ⟨e, he, heq⟩ := List.mem_map.1 (hmethods.mem_iff.1 (List.mem_map.2 ⟨d, hd, rfl⟩))
            simp only [Prod.mk.injEq] at heq
            obtain ⟨hkey, hps, hret⟩ := heq
            refine ⟨e.2, Entries.get?_of_mem hm' (hkey ▸ he), Method.same_iff.2 ?_⟩
            rw [hps, hret]
            refine ⟨List.forall₂_same.2 fun τ hτ => same_refl (hparams d hd τ hτ), ?_⟩
            exact same_refl (hreturns d hd)

/-- Equal types are written alike. -/
theorem text_of_same : ∀ {σ τ : Ty}, σ.same τ = true → σ.text = τ.text
  | .list σ, .list τ, h => by
      rw [same] at h
      rw [text, text, text_of_same h]
  | .object o, .object o', h => by
      obtain ⟨name, fields, methods⟩ := o
      obtain ⟨name', fields', methods'⟩ := o'
      simp only [same, ObjectTy.same, Bool.and_eq_true, beq_iff_eq] at h
      exact h.1.1
  | .bool, .bool, _ | .int, .int, _ | .float, .float, _ | .string, .string, _ => rfl

/-- Two types without repeated members that are equal. -/
structure Equal (σ τ : Ty) : Prop where
  left : σ.Proper
  right : τ.Proper
  same : σ.same τ = true

namespace Equal

variable {σ τ : Ty}

theorem refl (h : σ.Proper) : σ.Equal σ := ⟨h, h, same_refl h⟩

theorem list (h : σ.Equal τ) : (Ty.list σ).Equal (.list τ) where
  left := .list h.left
  right := .list h.right
  same := by
    rw [Ty.same]
    exact h.same

/-- It does not matter which of two equal types another one is compared with. -/
theorem same_congr {σ' τ' : Ty} (h : σ.Equal σ') (h' : τ.Equal τ') :
    σ.same τ = σ'.same τ' := by
  refine Bool.eq_iff_iff.2 ⟨fun hs => ?_, fun hs => ?_⟩
  · have hs' : σ'.same τ = true := same_euclid h.left h.right h'.left h.same hs
    exact same_trans h.right h'.left h'.right hs' h'.same
  · have hs' : σ.same τ' = true := same_trans h.left h.right h'.right h.same hs
    exact same_trans h.left h'.right h'.left hs' (same_symm h'.left h'.right h'.same)

end Equal

end Ty

/-- Two methods with equal signatures, whatever they run. -/
structure Method.Equal (m n : Method) : Prop where
  params : List.Forall₂ Ty.Equal m.params n.params
  returns : m.returns.Equal n.returns

namespace Ty

theorem forall₂_equal {σs τs : List Ty} (h : List.Forall₂ (fun σ τ => σ.same τ = true) σs τs)
    (hσ : ∀ σ ∈ σs, σ.Proper) (hτ : ∀ τ ∈ τs, τ.Proper) : List.Forall₂ Equal σs τs := by
  induction h with
  | nil => exact .nil
  | cons hs _ ih =>
      obtain ⟨hσ, hσs⟩ := List.forall_mem_cons.1 hσ
      obtain ⟨hτ, hτs⟩ := List.forall_mem_cons.1 hτ
      exact .cons ⟨hσ, hτ, hs⟩ (ih hσs hτs)

/-- Equal object types have equal members under every name, or none. -/
theorem Equal.members {o o' : ObjectTy} (h : (object o).Equal (.object o')) :
    o.name = o'.name ∧ o.fields.Agree Equal o'.fields ∧
      o.methods.Agree Method.Equal o'.methods := by
  obtain ⟨hname, hfields, hmethods⟩ := (same_object_iff h.left h.right).1 h.same
  cases h.left with
  | object _ _ hproper hparams hreturns =>
      cases h.right with
      | object _ _ hproper' hparams' hreturns' =>
          refine ⟨hname, hfields.imp fun d hd e he hs => ?_, hmethods.imp fun d hd e he hs => ?_⟩
          · exact ⟨hproper d hd, hproper' e he, hs⟩
          · obtain ⟨hps, hret⟩ := Method.same_iff.1 hs
            exact ⟨forall₂_equal hps (hparams d hd) (hparams' e he),
              hreturns d hd, hreturns' e he, hret⟩

end Ty

end TypedTemplate
