/-
# `TypedTemplate.Proofs.Render.Binding` — stacks that fit a scope

A scope lists the loops around a place of a template with the types of their items; the
stack of a rendering that is at this place lists the same loops with an item of each.
`Stack.Binds R scope s` says that the two lists have the same names in the same order and
that `R` holds of each item and its type.  What `R` is differs: for a context of its type
the items have their types, for an arbitrary one only the shape is certain.
-/
import Mathlib.Data.List.Forall2
import TypedTemplate.Proofs.Render.Written
import TypedTemplate.Term.Scope

namespace TypedTemplate

/-- The same names in the same order, and `R` of each value and its type. -/
def Stack.Binds (R : Value → Ty → Prop) (scope : Scope) (s : Stack) : Prop :=
  List.Forall₂ (fun b d => b.1 = d.1 ∧ R b.2 d.2) s.scopes scope.bindings

namespace Stack.Binds

variable {R : Value → Ty → Prop} {scope : Scope} {s : Stack}

/-- A name that the scope binds is bound on the stack. -/
theorem lookup? (h : s.Binds R scope) {word : String} {τ : Ty}
    (hw : scope.lookup? word = some τ) : ∃ v, s.lookup? word = some v ∧ R v τ := by
  rw [Stack.Binds] at h
  rw [Scope.lookup?] at hw
  rw [Stack.lookup?]
  generalize s.scopes = bs at h
  generalize scope.bindings = ds at h hw
  induction h with
  | nil => simp at hw
  | @cons b d bs ds hbd _ ih =>
      obtain ⟨name, v⟩ := b
      obtain ⟨name', σ⟩ := d
      obtain ⟨rfl, hR⟩ := hbd
      simp only [List.lookup_cons] at hw ⊢
      cases hn : word == name with
      | true =>
          simp only [hn] at hw ⊢
          obtain rfl : σ = τ := Option.some.inj hw
          exact ⟨v, rfl, hR⟩
      | false =>
          simp only [hn] at hw ⊢
          exact ih hw

theorem names (h : s.Binds R scope) :
    s.scopes.map Prod.fst = scope.bindings.map Prod.fst := by
  rw [← List.forall₂_eq_eq_eq, List.forall₂_map_left_iff, List.forall₂_map_right_iff]
  exact h.imp fun _ _ hbd => hbd.1

theorem items (h : s.Binds R scope) :
    List.Forall₂ (fun b d => R b.2 d.2) s.scopes scope.bindings :=
  h.imp fun _ _ hbd => hbd.2

/-- One more loop around the place, one more item on the stack. -/
theorem bind (h : s.Binds R scope) {name : String} {v : Value} {τ : Ty} (hv : R v τ) :
    (s.bind name v).Binds R (scope.bind name τ) :=
  List.Forall₂.cons ⟨rfl, hv⟩ h

/-- No loop around the place, no scope on the stack. -/
theorem empty {root : ObjectTy} {template : String} {context : Value} :
    Stack.Binds R ⟨root, []⟩ ⟨template, context, []⟩ :=
  List.Forall₂.nil

end Stack.Binds

end TypedTemplate
