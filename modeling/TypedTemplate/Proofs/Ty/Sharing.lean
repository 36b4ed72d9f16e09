/-
# `TypedTemplate.Proofs.Ty.Sharing` — descriptors that are held in two places

A host may hold one descriptor in several places, and a comparison that meets a descriptor with
itself need not look into it.  `sameSharing` is the comparison that stops there.  Which
descriptors are shared cannot be seen from what they declare, so it is taken as given
(`Sharing`), place by place; all that is known is that what is shared is the same.  Whatever is
shared, the answer is that of the plain comparison (`Ty.sameSharing_eq`), because a proper type
equals itself.
-/
import TypedTemplate.Proofs.Ty.Equality

namespace TypedTemplate

/-- Where a comparison meets a descriptor with itself.  A place is the way that led there, last
step first, so that the same descriptors may be shared at one place and not at another. -/
structure Sharing where
  shared : List Nat → ObjectTy → ObjectTy → Bool
  eq_of_shared : ∀ {place : List Nat} {o o' : ObjectTy}, shared place o o' = true → o = o'

mutual

/-- Whether two types are equal, found without looking into a descriptor that is shared. -/
def Ty.sameSharing (sharing : Sharing) (place : List Nat) : Ty → Ty → Bool
  | .bool, .bool => true
  | .int, .int => true
  | .float, .float => true
  | .string, .string => true
  | .list a, .list b => a.sameSharing sharing (0 :: place) b
  | .object a, .object b => sharing.shared place a b || a.sameSharing sharing place b
  | _, _ => false
termination_by structural a => a

/-- Whether two object types are declared alike. -/
def ObjectTy.sameSharing (sharing : Sharing) (place : List Nat) : ObjectTy → ObjectTy → Bool
  | .mk name fields methods, .mk name' fields' methods' =>
    name == name' &&
    (fields.length == fields'.length && Ty.sameSharingFields sharing (0 :: place) fields fields') &&
    (methods.length == methods'.length &&
      Ty.sameSharingMethods sharing (1 :: place) methods methods')
termination_by structural a => a

/-- Whether two methods have equal signatures. -/
def Method.sameSharing (sharing : Sharing) (place : List Nat) : Method → Method → Bool
  | .mk params returns _, .mk params' returns' _ =>
    Ty.sameSharingAll sharing (0 :: place) params params' &&
      returns.sameSharing sharing (1 :: place) returns'
termination_by structural a => a

/-- Whether two lists have equal types in the same order. -/
def Ty.sameSharingAll (sharing : Sharing) (place : List Nat) : List Ty → List Ty → Bool
  | [], [] => true
  | a :: as, b :: bs =>
    a.sameSharing sharing (as.length :: place) b && Ty.sameSharingAll sharing place as bs
  | _, _ => false
termination_by structural as => as

/-- Whether every field of the first collection has an equal type in the second. -/
def Ty.sameSharingFields (sharing : Sharing) (place : List Nat) :
    List (String × Ty) → List (String × Ty) → Bool
  | [], _ => true
  | (name, a) :: rest, fields =>
    (match Entries.get? name fields with
      | some b => a.sameSharing sharing (rest.length :: place) b
      | none => false) && Ty.sameSharingFields sharing place rest fields
termination_by structural fields => fields

/-- Whether every method of the first collection has an equal signature in the second. -/
def Ty.sameSharingMethods (sharing : Sharing) (place : List Nat) :
    List (String × Method) → List (String × Method) → Bool
  | [], _ => true
  | (name, a) :: rest, methods =>
    (match Entries.get? name methods with
      | some b => a.sameSharing sharing (rest.length :: place) b
      | none => false) && Ty.sameSharingMethods sharing place rest methods
termination_by structural methods => methods

end

section

variable {sharing : Sharing}

mutual

theorem Ty.sameSharing_eq : ∀ {σ : Ty}, σ.Proper → ∀ (place : List Nat) (τ : Ty),
    σ.sameSharing sharing place τ = σ.same τ
  | .bool, _, _, τ => by cases τ <;> rfl
  | .int, _, _, τ => by cases τ <;> rfl
  | .float, _, _, τ => by cases τ <;> rfl
  | .string, _, _, τ => by cases τ <;> rfl
  | .list σ, h, place, τ => by
      cases h with
      | list h =>
          cases τ with
          | list τ => exact Ty.sameSharing_eq h _ τ
          | _ => rfl
  | .object o, h, place, τ => by
      cases τ with
      | object o' =>
          rw [Ty.sameSharing, ObjectTy.sameSharing_eq h place o', Ty.same]
          cases hs : sharing.shared place o o' with
          | false => rfl
          | true =>
              obtain rfl := sharing.eq_of_shared hs
              have hrefl := Ty.same_refl h
              rw [Ty.same] at hrefl
              rw [hrefl]
              rfl
      | _ => rfl

theorem ObjectTy.sameSharing_eq : ∀ {o : ObjectTy}, (Ty.object o).Proper →
    ∀ (place : List Nat) (o' : ObjectTy), o.sameSharing sharing place o' = o.same o'
  | .mk name fields methods, h, place, .mk name' fields' methods' => by
      cases h with
      | object _ _ hfields hparams hreturns =>
          dsimp only [ObjectTy.fields, ObjectTy.methods] at hfields hparams hreturns
          rw [ObjectTy.sameSharing, ObjectTy.same, Ty.sameSharingFields_eq hfields,
            Ty.sameSharingMethods_eq hparams hreturns]

theorem Method.sameSharing_eq : ∀ {m : Method}, (∀ τ ∈ m.params, τ.Proper) → m.returns.Proper →
    ∀ (place : List Nat) (n : Method), m.sameSharing sharing place n = m.same n
  | .mk params returns call, hparams, hreturns, place, .mk params' returns' call' => by
      dsimp only [Method.params, Method.returns] at hparams hreturns
      rw [Method.sameSharing, Method.same, Ty.sameSharingAll_eq hparams, Ty.sameSharing_eq hreturns]

theorem Ty.sameSharingAll_eq : ∀ {σs : List Ty}, (∀ σ ∈ σs, σ.Proper) →
    ∀ (place : List Nat) (τs : List Ty), Ty.sameSharingAll sharing place σs τs = Ty.sameAll σs τs
  | [], _, _, τs => by cases τs <;> rfl
  | σ :: σs, h, place, τs => by
      cases τs with
      | nil => rfl
      | cons τ τs =>
          obtain ⟨hσ, hσs⟩ := List.forall_mem_cons.1 h
          rw [Ty.sameSharingAll, Ty.sameAll, Ty.sameSharing_eq hσ, Ty.sameSharingAll_eq hσs]

theorem Ty.sameSharingFields_eq : ∀ {fields : Entries Ty}, (∀ d ∈ fields, d.2.Proper) →
    ∀ (place : List Nat) (fields' : Entries Ty),
      Ty.sameSharingFields sharing place fields fields' = Ty.sameFields fields fields'
  | [], _, _, _ => rfl
  | (name, σ) :: rest, h, place, fields' => by
      obtain ⟨hσ, hrest⟩ := List.forall_mem_cons.1 h
      rw [Ty.sameSharingFields, Ty.sameFields, Ty.sameSharingFields_eq hrest]
      cases Entries.get? name fields' with
      | none => rfl
      | some τ => dsimp only; rw [Ty.sameSharing_eq hσ]

theorem Ty.sameSharingMethods_eq : ∀ {methods : Entries Method},
    (∀ d ∈ methods, ∀ τ ∈ d.2.params, τ.Proper) → (∀ d ∈ methods, d.2.returns.Proper) →
    ∀ (place : List Nat) (methods' : Entries Method),
      Ty.sameSharingMethods sharing place methods methods' = Ty.sameMethods methods methods'
  | [], _, _, _, _ => rfl
  | (name, m) :: rest, hparams, hreturns, place, methods' => by
      obtain ⟨hps, hparams⟩ := List.forall_mem_cons.1 hparams
      obtain ⟨hret, hreturns⟩ := List.forall_mem_cons.1 hreturns
      rw [Ty.sameSharingMethods, Ty.sameMethods, Ty.sameSharingMethods_eq hparams hreturns]
      cases Entries.get? name methods' with
      | none => rfl
      | some n => dsimp only; rw [Method.sameSharing_eq hps hret]

end

end

end TypedTemplate
