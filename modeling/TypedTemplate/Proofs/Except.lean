/-
# `TypedTemplate.Proofs.Except` — taking a successful computation apart

Compiling a template is a chain of steps each of which may be refused.  If the whole
succeeded then so did every step, and the first lemmas here give the intermediate results.
Where only success matters and not its result, `Except.Succeeds` follows a chain.
Evaluating a term is such a chain too, but there the failures matter as much as the
values: `Except.Obeys` says something of either outcome, and follows a chain step by step
(`Obeys.bind`).  `Except.Matches` does so for two chains at once (`Matches.bind`).
-/
namespace Except

variable {ε ε' α β : Type}

theorem bind_eq_ok {x : Except ε α} {f : α → Except ε β} {b : β} :
    x >>= f = .ok b ↔ ∃ a, x = .ok a ∧ f a = .ok b := by
  cases x <;> simp [bind, Except.bind]

theorem bind_eq_error {x : Except ε α} {f : α → Except ε β} {e : ε} :
    x >>= f = .error e ↔ x = .error e ∨ ∃ a, x = .ok a ∧ f a = .error e := by
  cases x <;> simp [bind, Except.bind]

theorem pure_eq_ok {a b : α} : (pure a : Except ε α) = .ok b ↔ a = b := by
  simp [pure, Except.pure]

theorem map_eq_ok {x : Except ε α} {f : α → β} {b : β} :
    x.map f = .ok b ↔ ∃ a, x = .ok a ∧ f a = b := by
  cases x <;> simp [Except.map]

theorem map_eq_error {x : Except ε α} {f : α → β} {e : ε} : x.map f = .error e ↔ x = .error e := by
  cases x <;> simp [Except.map]

theorem mapError_eq_ok {x : Except ε α} {f : ε → ε'} {a : α} :
    x.mapError f = .ok a ↔ x = .ok a := by
  cases x with
  | ok b =>
      constructor
      · intro h
        cases h
        rfl
      · intro h
        cases h
        rfl
  | error e =>
      constructor
      · intro h
        cases h
      · intro h
        cases h

theorem mapError_eq_error {x : Except ε α} {f : ε → ε'} {e' : ε'} :
    x.mapError f = .error e' ↔ ∃ e, x = .error e ∧ f e = e' := by
  constructor
  · intro h
    cases x with
    | ok a => cases h
    | error e =>
        cases h
        exact ⟨e, rfl, rfl⟩
  · rintro ⟨e, rfl, rfl⟩
    rfl

theorem mapError_bind {x : Except ε α} {f : α → Except ε β} {g : ε → ε'} :
    (x >>= f).mapError g = (x.mapError g >>= fun a => (f a).mapError g) := by
  cases x <;> rfl

theorem toOption_eq_some {x : Except ε α} {a : α} : x.toOption = some a ↔ x = .ok a := by
  cases x <;> simp [Except.toOption]

theorem toOption_map_eq_some {x : Except ε α} {f : α → β} {b : β} :
    x.toOption.map f = some b ↔ ∃ a, x = .ok a ∧ f a = b := by
  cases x <;> simp [Except.toOption]

theorem toOption_bind {x : Except ε α} {f : α → Except ε β} :
    (x >>= f).toOption = x.toOption.bind fun a => (f a).toOption := by
  cases x <;> rfl

/-- If each step of one chain is a step of another seen through a function, so is the chain,
failures aside. -/
theorem map_toOption_bind {α' β' : Type} {x : Except ε α} {x' : Except ε α'} {f : α → Except ε β}
    {f' : α' → Except ε β'} {g : α → α'} {k : β → β'} (hx : x.toOption.map g = x'.toOption)
    (hf : ∀ a, (f a).toOption.map k = (f' (g a)).toOption) :
    (x >>= f).toOption.map k = (x' >>= f').toOption := by
  rw [toOption_bind, toOption_bind, ← hx]
  cases x.toOption with
  | none => rfl
  | some a => exact hf a

theorem toOption_map {x : Except ε α} {f : α → β} : (x.map f).toOption = x.toOption.map f := by
  cases x <;> rfl

/-- There is a result. -/
def Succeeds (x : Except ε α) : Prop := ∃ a, x = .ok a

@[simp] theorem succeeds_ok (a : α) : (.ok a : Except ε α).Succeeds := ⟨a, rfl⟩

theorem succeeds_iff_toBool {x : Except ε α} : x.Succeeds ↔ x.toBool = true := by
  cases x <;> simp [Succeeds, Except.toBool]

instance (x : Except ε α) : Decidable x.Succeeds := decidable_of_iff _ succeeds_iff_toBool.symm

@[simp] theorem succeeds_pure (a : α) : (pure a : Except ε α).Succeeds := ⟨a, rfl⟩

@[simp] theorem not_succeeds_error (e : ε) : ¬ (.error e : Except ε α).Succeeds := by
  rintro ⟨a, h⟩
  cases h

theorem succeeds_bind {x : Except ε α} {f : α → Except ε β} :
    (x >>= f).Succeeds ↔ ∃ a, x = .ok a ∧ (f a).Succeeds := by
  cases x with
  | ok a =>
      constructor
      · intro h
        exact ⟨a, rfl, h⟩
      · rintro ⟨_, ha, h⟩
        cases ha
        exact h
  | error e =>
      constructor
      · rintro ⟨b, h⟩
        cases h
      · rintro ⟨_, h, -⟩
        cases h

/-- A second step that succeeds in the same cases whatever the first results in. -/
theorem succeeds_bind_and {x : Except ε α} {f : α → Except ε β} {p : Prop}
    (h : ∀ a, (f a).Succeeds ↔ p) : (x >>= f).Succeeds ↔ x.Succeeds ∧ p := by
  rw [succeeds_bind]
  simp only [h]
  exact exists_and_right

/-- What is made of the result does not matter. -/
@[simp] theorem succeeds_map {x : Except ε α} {f : α → β} : (f <$> x).Succeeds ↔ x.Succeeds := by
  cases x <;> simp [Functor.map, Except.map]

/-- A success has the one property, a failure the other. -/
def Obeys (P : α → Prop) (E : ε → Prop) : Except ε α → Prop
  | .ok a => P a
  | .error e => E e

namespace Obeys

variable {P : α → Prop} {Q : β → Prop} {E : ε → Prop}

theorem bind {x : Except ε α} {f : α → Except ε β} (hx : x.Obeys P E)
    (hf : ∀ a, P a → (f a).Obeys Q E) : (x >>= f).Obeys Q E := by
  cases x with
  | ok a => exact hf a hx
  | error e => exact hx

theorem map {x : Except ε α} {f : α → β} (hx : x.Obeys P E) (hf : ∀ a, P a → Q (f a)) :
    (x.map f).Obeys Q E := by
  cases x with
  | ok a => exact hf a hx
  | error e => exact hx

end Obeys

/-- Both succeed, with related results, or both fail, with related failures; if there is `more` on
the right, it may also succeed where the left fails. -/
def Matches (more : Prop) (R : α → β → Prop) (E : ε → ε' → Prop) : Except ε α → Except ε' β → Prop
  | .ok a, .ok b => R a b
  | .error e, .error e' => E e e'
  | .error _, .ok _ => more
  | .ok _, .error _ => False

namespace Matches

variable {α' β' : Type} {more : Prop} {R : α → β → Prop} {S : α' → β' → Prop} {E : ε → ε' → Prop}

theorem bind {x : Except ε α} {y : Except ε' β} {f : α → Except ε α'} {g : β → Except ε' β'}
    (h : Matches more R E x y) (hmore : more → ∀ e e', E e e')
    (hfg : ∀ a b, R a b → Matches more S E (f a) (g b)) :
    Matches more S E (x >>= f) (y >>= g) := by
  cases x with
  | ok a =>
      cases y with
      | ok b => exact hfg a b h
      | error e' => exact h.elim
  | error e =>
      cases y with
      | error e' => exact h
      | ok b =>
          show Matches more S E (.error e) (g b)
          cases g b with
          | ok b' => exact h
          | error e' => exact hmore h e e'

theorem imp {R' : α → β → Prop} {E' : ε → ε' → Prop} {x : Except ε α} {y : Except ε' β}
    (h : Matches more R E x y) (hR : ∀ a b, R a b → R' a b) (hE : ∀ e e', E e e' → E' e e') :
    Matches more R' E' x y := by
  cases x with
  | ok a =>
      cases y with
      | ok b => exact hR a b h
      | error e' => exact h.elim
  | error e =>
      cases y with
      | ok b => exact h
      | error e' => exact hE e e' h

/-- What succeeds on the left succeeds on the right. -/
theorem of_ok {x : Except ε α} {y : Except ε' β} (h : Matches more R E x y) {a : α}
    (hx : x = .ok a) : ∃ b, y = .ok b ∧ R a b := by
  subst hx
  cases y with
  | ok b => exact ⟨b, rfl, h⟩
  | error e' => exact h.elim

end Matches

end Except
