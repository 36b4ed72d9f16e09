/-
# `TypedTemplate.Proofs.Ty.Same` — what equal types have in common

`Ty.same` compares declarations.  Two things are used of it: that an equal type can
stand for a scalar type only if it is that type, and that of two equal object types
each has the fields of the other, with equal types.  The second half of that needs
the names of the first to be distinct: the comparison counts the fields and looks up
those of the first in the second, and only a count of distinct names leaves no field
of the second out.
-/
import Mathlib.Data.List.Perm.Subperm
import TypedTemplate.Value.Shape

namespace TypedTemplate

namespace Ty

@[simp] theorem same_bool {τ : Ty} : τ.same .bool = true ↔ τ = .bool := by
  cases τ <;> simp [Ty.same]

/-- A field of the first collection has an equal type in the second. -/
theorem sameFields_get? : ∀ {fields fields' : Entries Ty}, sameFields fields fields' = true →
    ∀ {name : String} {σ : Ty}, fields.get? name = some σ →
      ∃ τ, fields'.get? name = some τ ∧ σ.same τ = true
  | [], _, _, _, _, h => by simp [Entries.get?] at h
  | (key, σ') :: rest, fields', hs, name, σ, h => by
      simp only [sameFields, Bool.and_eq_true] at hs
      obtain ⟨hkey, hrest⟩ := hs
      by_cases hn : name = key
      · subst hn
        obtain rfl : σ' = σ := by simpa [Entries.get?] using h
        cases hg : Entries.get? name fields' with
        | none => simp [hg] at hkey
        | some τ => exact ⟨τ, rfl, by simpa [hg] using hkey⟩
      · refine sameFields_get? hrest ?_
        simpa [Entries.get?, List.lookup_cons, beq_eq_false_iff_ne.2 hn] using h

/-- If as many fields with distinct names are all found in the second collection, it has no
others. -/
theorem sameFields_partner {fields fields' : Entries Ty} (hd : fields.Distinct)
    (hl : fields.length = fields'.length) (hs : sameFields fields fields' = true)
    {name : String} {τ : Ty} (h : fields'.get? name = some τ) :
    ∃ σ, fields.get? name = some σ ∧ σ.same τ = true := by
  have hsub : fields.names ⊆ fields'.names := by
    intro n hn
    obtain ⟨σ, hσ⟩ := Entries.mem_names.1 hn
    obtain ⟨τ', hτ', -⟩ := sameFields_get? hs hσ
    exact Entries.mem_names.2 ⟨τ', hτ'⟩
  have hperm : fields.names.Perm fields'.names := by
    refine (List.subperm_of_subset hd hsub).perm_of_length_le ?_
    simp [Entries.names, hl]
  have hname : name ∈ fields.names := hperm.mem_iff.2 (Entries.mem_names.2 ⟨τ, h⟩)
  obtain ⟨σ, hσ⟩ := Entries.mem_names.1 hname
  obtain ⟨τ', hτ', hsame⟩ := sameFields_get? hs hσ
  obtain rfl : τ' = τ := by rw [h] at hτ'; exact (Option.some.inj hτ').symm
  exact ⟨σ, hσ, hsame⟩

/-- A field of the second of two equal object types, seen from the first. -/
theorem same_object_field {o o' : ObjectTy} (hd : o.fields.Distinct)
    (h : (Ty.object o).same (.object o') = true) {name : String} {τ : Ty}
    (hf : o'.field? name = some τ) : ∃ σ, o.field? name = some σ ∧ σ.same τ = true := by
  obtain ⟨n, fields, methods⟩ := o
  obtain ⟨n', fields', methods'⟩ := o'
  simp only [Ty.same, ObjectTy.same, Bool.and_eq_true, beq_iff_eq] at h
  exact sameFields_partner hd h.1.2.1 h.1.2.2 hf

end Ty

/-- Equal types ask for the same shape. -/
theorem Value.conforms_congr (σ : Ty) : ∀ {τ : Ty}, σ.same τ = true →
    ∀ v : Value, v.conforms σ = v.conforms τ := by
  intro τ h v
  cases σ with
  | bool => cases τ with
    | bool => rfl
    | _ => simp [Ty.same] at h
  | int => cases τ with
    | int => rfl
    | _ => simp [Ty.same] at h
  | float => cases τ with
    | float => rfl
    | _ => simp [Ty.same] at h
  | string => cases τ with
    | string => rfl
    | _ => simp [Ty.same] at h
  | object o => cases τ with
    | object o' => cases v <;> rfl
    | _ => simp [Ty.same] at h
  | list σ => cases τ with
    | list τ =>
        have ih := conforms_congr σ (τ := τ) (by simpa [Ty.same] using h)
        cases v with
        | list items =>
            show allConform items σ = allConform items τ
            induction items with
            | nil => rfl
            | cons v vs ihs => simp only [allConform, ih v, ihs]
        | _ => rfl
    | _ => simp [Ty.same] at h

end TypedTemplate
