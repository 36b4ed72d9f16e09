/-
# `TypedTemplate.Proofs.Text.Cut` — where a cut falls

`Clear p a b` says that `p` holds nowhere in `a` when `b` comes after it.  A cut before
`b` is the same as this together with `p` at `b` (`cut?_eq_some`, `cut_eq`), so a text can
be cut where another one was as soon as the test cannot see the difference
(`Clear.congr`).
-/
import TypedTemplate.Text.Cut

namespace TypedTemplate.Text

/-- The test holds at no place of `a` with `b` after it. -/
def Clear (p : List Char → Bool) : List Char → List Char → Prop
  | [], _ => True
  | c :: a, b => p (c :: (a ++ b)) = false ∧ Clear p a b

theorem cut?_eq_some {p : List Char → Bool} {cs a b : List Char} :
    cut? p cs = some (a, b) ↔ cs = a ++ b ∧ b ≠ [] ∧ p b = true ∧ Clear p a b := by
  induction cs generalizing a b with
  | nil =>
      simp only [cut?, reduceCtorEq, false_iff]
      rintro ⟨h, hb, -⟩
      exact hb (List.append_eq_nil_iff.1 h.symm).2
  | cons c cs ih =>
      rw [cut?]
      cases hp : p (c :: cs) with
      | true =>
          simp only [if_true, Option.some.injEq, Prod.mk.injEq]
          constructor
          · rintro ⟨rfl, rfl⟩
            exact ⟨rfl, List.cons_ne_nil c cs, hp, trivial⟩
          · rintro ⟨h, -, -, hclear⟩
            cases a with
            | nil => exact ⟨rfl, h⟩
            | cons d a =>
                rw [h, List.cons_append, hclear.1] at hp
                cases hp
      | false =>
          simp only [Bool.false_eq_true, if_false, Option.map_eq_some_iff, Prod.mk.injEq,
            Prod.exists]
          constructor
          · rintro ⟨a', b', hcut, rfl, rfl⟩
            obtain ⟨rfl, hb, hpb, hclear⟩ := ih.1 hcut
            exact ⟨rfl, hb, hpb, hp, hclear⟩
          · rintro ⟨h, hb, hpb, hclear⟩
            cases a with
            | nil =>
                rw [List.nil_append] at h
                rw [h, hpb] at hp
                cases hp
            | cons d a =>
                obtain ⟨rfl, rfl⟩ := List.cons.inj h
                exact ⟨a, b, ih.2 ⟨rfl, hb, hpb, hclear.2⟩, rfl, rfl⟩

theorem cut?_eq_none {p : List Char → Bool} {cs : List Char} :
    cut? p cs = none ↔ Clear p cs [] := by
  induction cs with
  | nil => simp [cut?, Clear]
  | cons c cs ih =>
      rw [cut?, Clear, List.append_nil, ← ih]
      cases p (c :: cs) <;> simp

/-- Where nothing is found the cut falls at the end. -/
theorem cut_eq {p : List Char → Bool} {cs a b : List Char} :
    cut p cs = (a, b) ↔ cs = a ++ b ∧ (b = [] ∨ p b = true) ∧ Clear p a b := by
  rw [cut]
  cases hcut : cut? p cs with
  | none =>
      rw [Option.getD_none, Prod.mk.injEq]
      constructor
      · rintro ⟨rfl, rfl⟩
        exact ⟨(List.append_nil cs).symm, Or.inl rfl, cut?_eq_none.1 hcut⟩
      · rintro ⟨h, rfl | hb, hclear⟩
        · exact ⟨by simpa using h, rfl⟩
        · by_cases hne : b = []
          · exact ⟨by simpa [hne] using h, hne.symm⟩
          · rw [cut?_eq_some.2 ⟨h, hne, hb, hclear⟩] at hcut
            cases hcut
  | some found =>
      obtain ⟨a', b'⟩ := found
      rw [Option.getD_some, ← Option.some.injEq, ← hcut, cut?_eq_some]
      constructor
      · rintro ⟨h, -, hb, hclear⟩
        exact ⟨h, Or.inr hb, hclear⟩
      · rintro ⟨h, hb, hclear⟩
        have hne : b ≠ [] := by
          rintro rfl
          rw [h, List.append_nil, cut?_eq_none.2 hclear] at hcut
          cases hcut
        exact ⟨h, hne, hb.resolve_left hne, hclear⟩

namespace Clear

variable {p : List Char → Bool} {a b b' : List Char}

/-- What comes after may be changed if the test does not see it from inside. -/
theorem congr (h : Clear p a b)
    (hp : ∀ c s, c :: s <:+ a → p (c :: (s ++ b)) = false → p (c :: (s ++ b')) = false) :
    Clear p a b' := by
  induction a with
  | nil => trivial
  | cons c a ih =>
      refine ⟨hp c a List.suffix_rfl h.1, ih h.2 fun d s hs => hp d s ?_⟩
      exact hs.trans (List.suffix_cons c a)

theorem append {a' : List Char} : Clear p (a ++ a') b ↔ Clear p a (a' ++ b) ∧ Clear p a' b := by
  induction a with
  | nil => simp [Clear]
  | cons c a ih => simp [Clear, ih, and_assoc]

/-- The test holds nowhere before the end of `a`. -/
theorem prefix_of {x y : List Char} (h : Clear p a b) (heq : a ++ b = x ++ y) (hy : p y = true) :
    a <+: x := by
  rcases List.append_eq_append_iff.1 heq with ⟨more, rfl, -⟩ | ⟨more, rfl, rfl⟩
  · exact List.prefix_append a more
  · cases more with
    | nil => simp
    | cons c more =>
        rw [List.cons_append, (append.1 h).2.1] at hy
        cases hy

/-- A test of the next character fails at all characters. -/
theorem startsWhere {q : Char → Bool} :
    Clear (Text.startsWhere q) a b ↔ ∀ c ∈ a, q c = false := by
  induction a with
  | nil => simp [Clear]
  | cons c a ih => simp [Clear, ih, Text.startsWhere]

theorem startsWith {d : Char} : Clear (Text.startsWith d) a b ↔ d ∉ a := by
  induction a with
  | nil => simp [Clear]
  | cons c a ih => simp [Clear, ih, Text.startsWith, @eq_comm _ c d]

end Clear

end TypedTemplate.Text
