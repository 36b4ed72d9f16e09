/-
# `TypedTemplate.Proofs.Ty.Reach` — the types that can be met in a context

From a value of some type an expression gets to values of other types: to the items
of a list, to the fields of an object, to what its methods return.  `σ.Reaches τ` says
that it gets from `σ` to `τ` in some number of such steps.  The types of parameters are
not among them: a template hands such values over but never receives one.

A term may also have a type that nothing in the context has, because a list can be
written out; what counts is that the object types in it are the context's own, which
`Ty.Within` says.
-/
import TypedTemplate.Ty.Basic

namespace TypedTemplate

/-- An expression gets from a value of type `σ` to one of the other type. -/
inductive Ty.Reaches (σ : Ty) : Ty → Prop where
  | here : Reaches σ σ
  | item {τ : Ty} : Reaches σ (.list τ) → Reaches σ τ
  | field {o : ObjectTy} {name : String} {τ : Ty} :
      Reaches σ (.object o) → o.field? name = some τ → Reaches σ τ
  | result {o : ObjectTy} {name : String} {m : Method} :
      Reaches σ (.object o) → o.method? name = some m → Reaches σ m.returns

namespace Ty

theorem Reaches.trans {ρ σ τ : Ty} (h₁ : ρ.Reaches σ) (h₂ : σ.Reaches τ) : ρ.Reaches τ := by
  induction h₂ with
  | here => exact h₁
  | item _ ih => exact .item ih
  | field _ hf ih => exact .field ih hf
  | result _ hm ih => exact .result ih hm

/-- Every object type that can be reached from `τ` can be reached from the context's type. -/
def Within (root : ObjectTy) (τ : Ty) : Prop :=
  ∀ o : ObjectTy, τ.Reaches (.object o) → (Ty.object root).Reaches (.object o)

namespace Within

variable {root : ObjectTy}

theorem refl : Within root (.object root) := fun _ h => h

theorem of_reaches {σ τ : Ty} (h : Within root σ) (hr : σ.Reaches τ) : Within root τ :=
  fun o ho => h o (hr.trans ho)

/-- The items of a list add nothing to the list. -/
theorem list {τ : Ty} (h : Within root τ) : Within root (.list τ) := by
  intro o ho
  have key : ∀ ρ : Ty, (Ty.list τ).Reaches ρ → ρ = .list τ ∨ τ.Reaches ρ := by
    intro ρ hρ
    induction hρ with
    | here => exact Or.inl rfl
    | item _ ih =>
        rcases ih with heq | hr
        · cases heq; exact Or.inr .here
        · exact Or.inr (.item hr)
    | field _ hf ih =>
        rcases ih with heq | hr
        · cases heq
        · exact Or.inr (.field hr hf)
    | result _ hm ih =>
        rcases ih with heq | hr
        · cases heq
        · exact Or.inr (.result hr hm)
  rcases key _ ho with heq | hr
  · cases heq
  · exact h o hr

/-- There is nowhere to go from a scalar. -/
theorem of_isScalar {τ : Ty} (h : τ.isScalar = true) : Within root τ := by
  intro o ho
  have key : ∀ ρ : Ty, τ.Reaches ρ → ρ = τ := by
    intro ρ hρ
    induction hρ with
    | here => rfl
    | item _ ih => subst ih; simp [isScalar] at h
    | field _ _ ih => subst ih; simp [isScalar] at h
    | result _ _ ih => subst ih; simp [isScalar] at h
  have := key _ ho
  subst this
  simp [isScalar] at h

end Within

end Ty

end TypedTemplate
