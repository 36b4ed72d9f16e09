/-
# `TypedTemplate.Proofs.Value.Typing` — values that are all the way down what their type says

`Value.conforms` looks as far as lists go and lets every object pass for every object
type.  `Value.HasType` looks further: an object has every field that its type declares,
with a value that has the field's type.  Null has every type, here as there.

A value of a type has that type's shape (`HasType.conforms`), and it has every equal
type as well (`HasType.of_same`).
-/
import TypedTemplate.Proofs.Ty.Reach
import TypedTemplate.Proofs.Ty.Same

namespace TypedTemplate.Value

/-- The value is of the type in all its parts. -/
inductive HasType : Value → Ty → Prop where
  | null {τ : Ty} : HasType .null τ
  | bool (b : Bool) : HasType (.bool b) .bool
  | int (i : Int64) : HasType (.int i) .int
  | float (x : Float) : HasType (.float x) .float
  | string (s : String) : HasType (.string s) .string
  | list {items : List Value} {τ : Ty} :
      (∀ v ∈ items, HasType v τ) → HasType (.list items) (.list τ)
  /-- Every declared field is there, and has its type. -/
  | object {fields : List (String × Value)} {o : ObjectTy} :
      (∀ name τ, o.field? name = some τ → ∃ v, Entries.get? name fields = some v) →
      (∀ name τ v, o.field? name = some τ → Entries.get? name fields = some v → HasType v τ) →
      HasType (.object fields) (.object o)

namespace HasType

theorem conforms {v : Value} {τ : Ty} (h : v.HasType τ) : v.conforms τ = true := by
  induction h with
  | null => cases ‹Ty› <;> rfl
  | bool _ | int _ | float _ | string _ | object _ _ => rfl
  | list _ ih => exact allConform_iff.2 ih

/-- A value of a type has every equal type, provided that no object type in the first declares a
field twice. -/
theorem of_same {v : Value} {σ : Ty} (h : v.HasType σ) :
    (∀ o : ObjectTy, σ.Reaches (.object o) → o.fields.Distinct) →
      ∀ {τ : Ty}, σ.same τ = true → v.HasType τ := by
  induction h with
  | null => intro _ _ _; exact .null
  | bool b => intro _ τ hs; cases τ <;> first | exact .bool b | simp [Ty.same] at hs
  | int i => intro _ τ hs; cases τ <;> first | exact .int i | simp [Ty.same] at hs
  | float x => intro _ τ hs; cases τ <;> first | exact .float x | simp [Ty.same] at hs
  | string s => intro _ τ hs; cases τ <;> first | exact .string s | simp [Ty.same] at hs
  | list _ ih =>
      intro hd τ hs
      cases τ with
      | list τ' =>
          refine .list fun v hv => ih v hv (fun o ho => hd o ?_) (by simpa [Ty.same] using hs)
          exact (Ty.Reaches.item .here).trans ho
      | _ => simp [Ty.same] at hs
  | @object fields o hthere _ ih =>
      intro hd τ hs
      cases τ with
      | object o' =>
          refine .object ?_ ?_
          · intro name τ hf
            obtain ⟨σ, hσ, -⟩ := Ty.same_object_field (hd o .here) hs hf
            exact hthere name σ hσ
          · intro name τ v hf hv
            obtain ⟨σ, hσ, hst⟩ := Ty.same_object_field (hd o .here) hs hf
            refine ih name σ v hσ hv (fun o'' ho => hd o'' ?_) hst
            exact (Ty.Reaches.field .here hσ).trans ho
      | _ => simp [Ty.same] at hs

/-- It is enough to look at the declarations one by one. -/
theorem of_declared {fields : List (String × Value)} {o : ObjectTy}
    (h : ∀ d ∈ o.fields, ∃ v, Entries.get? d.1 fields = some v ∧ v.HasType d.2) :
    (Value.object fields).HasType (.object o) := by
  refine .object (fun name τ hf => ?_) (fun name τ v hf hv => ?_)
  · obtain ⟨v, hv, -⟩ := h _ (Entries.mem_of_get? hf)
    exact ⟨v, hv⟩
  · obtain ⟨w, hw, hty⟩ := h _ (Entries.mem_of_get? hf)
    cases hv.symm.trans hw
    exact hty

end HasType

/-! ## Null or of the expected form -/

theorem HasType.bool_inv {v : Value} (h : v.HasType .bool) : v = .null ∨ ∃ b, v = .bool b := by
  cases h with
  | null => exact Or.inl rfl
  | bool b => exact Or.inr ⟨b, rfl⟩

theorem HasType.string_inv {v : Value} (h : v.HasType .string) :
    v = .null ∨ ∃ s, v = .string s := by
  cases h with
  | null => exact Or.inl rfl
  | string s => exact Or.inr ⟨s, rfl⟩

theorem HasType.list_inv {v : Value} {τ : Ty} (h : v.HasType (.list τ)) :
    v = .null ∨ ∃ items, v = .list items ∧ ∀ w ∈ items, w.HasType τ := by
  cases h with
  | null => exact Or.inl rfl
  | list hitems => exact Or.inr ⟨_, rfl, hitems⟩

theorem HasType.object_inv {v : Value} {o : ObjectTy} (h : v.HasType (.object o)) :
    v = .null ∨ ∃ fields, v = .object fields ∧
      ∀ name τ, o.field? name = some τ →
        ∃ w, Entries.get? name fields = some w ∧ w.HasType τ := by
  cases h with
  | null => exact Or.inl rfl
  | object hthere htyped =>
      refine Or.inr ⟨_, rfl, ?_⟩
      intro name τ hf
      obtain ⟨w, hw⟩ := hthere name τ hf
      exact ⟨w, hw, htyped name τ w hf hw⟩

end TypedTemplate.Value
