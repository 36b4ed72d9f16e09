/-
# `TypedTemplate.Proofs.Term.Steps` — when a step of resolving succeeds, and with what

One equivalence for each function that `Expr.resolve` is made of: the step succeeds with a
given term if and only if the types of the parts are what the step asks for, and the term
is the one that the step makes of them.  Proofs about resolved terms use these and do not
open the functions.
-/
import TypedTemplate.Proofs.Except
import TypedTemplate.Proofs.Ty.Same
import TypedTemplate.Term.Resolve

namespace TypedTemplate

namespace Resolve

variable {scope : Scope} {span : Span} {location : Location} {t : Term}

theorem listing_ok {items : List Term} : listing span location items = .ok t ↔
    ∃ first rest, items = first :: rest ∧ (∀ i ∈ rest, i.type.same first.type = true) ∧
      t = .listing ⟨.list first.type, location⟩ items := by
  cases items with
  | nil => simp [listing, refuse]
  | cons first rest =>
      rw [listing]
      split
      · rename_i odd hodd
        have hmem := List.mem_of_find?_eq_some hodd
        have hfound := List.find?_some hodd
        constructor
        · intro h
          cases h
        · rintro ⟨_, _, heq, hsame, -⟩
          cases heq
          simp [hsame odd hmem] at hfound
      · rename_i hnone
        constructor
        · intro h
          cases h
          exact ⟨first, rest, rfl, by simpa using List.find?_eq_none.1 hnone, rfl⟩
        · rintro ⟨_, _, heq, -, rfl⟩
          cases heq
          rfl

theorem field_ok {base : Term} {field : String} : Resolve.field span location base field = .ok t ↔
    ∃ o τ, base.type = .object o ∧ o.field? field = some τ ∧
      t = .fieldOf ⟨τ, location⟩ base field := by
  rw [Resolve.field]
  cases base.type <;> simp [Ty.object?, refuse]
  rename_i o
  cases o.field? field <;> simp [eq_comm]

theorem negation_ok {operand : Term} : negation span location operand = .ok t ↔
    operand.type = .bool ∧ t = .negation ⟨.bool, location⟩ operand := by
  rw [negation]
  split
  · rename_i h
    simp [Ty.same_bool.1 h, eq_comm]
  · rename_i h
    simp only [refuse, reduceCtorEq, false_iff, not_and]
    intro htype
    exact absurd (Ty.same_bool.2 htype) h

theorem count_ok {method : String} {params : List Ty} {args : List Expr} {u : Unit} :
    count span method params args = .ok u ↔ args.length = params.length := by
  rw [count]
  split <;> simp_all [refuse]

theorem name_ok {word : String} : name scope span location word = .ok t ↔
    (∃ τ, scope.lookup? word = some τ ∧ t = .loopName ⟨τ, location⟩ word) ∨
      ∃ τ, scope.lookup? word = none ∧ scope.root.field? word = some τ ∧
        t = .rootField ⟨τ, location⟩ word := by
  rw [name]
  cases scope.lookup? word with
  | some τ => simp [eq_comm]
  | none => cases scope.root.field? word <;> simp [refuse, eq_comm]

end Resolve

theorem Ty.callable?_eq_host {τ : Ty} {name : String} {m : Method} :
    τ.callable? name = some (.host m) ↔ ∃ o, τ = .object o ∧ o.method? name = some m := by
  cases τ <;> simp [Ty.callable?]

theorem Ty.callable?_eq_builtin {τ : Ty} {name : String} {b : Builtin} :
    τ.callable? name = some (.builtin b) ↔
      (τ = .string ∨ ∃ σ, τ = .list σ) ∧ Builtin.ofName? name = some b := by
  cases τ <;> simp [Ty.callable?]

end TypedTemplate
