/-
# `TypedTemplate.Text.Cut` — cutting a text at the first place that fits

The scanners of this library all do one thing: they take the characters up to the
first place where something begins (a quote, `-->`, the next tag) and leave the
rest.  `cut?` is that step, with the something given as a test on the characters
still to come; `cut` is the same where the end of the text will do as well.

Nothing is lost by a cut (`cut?_append`, `cut_append`), the test holds at the
place of the cut (`cut?_holds`), and the rest is never longer than the whole
(`cut?_length`), which is what the scanning loops end by.
-/
namespace TypedTemplate.Text

/-- The characters before the first place where `p` holds of what follows, and what
follows there; `none` if `p` holds nowhere. -/
def cut? (p : List Char → Bool) : List Char → Option (List Char × List Char)
  | [] => none
  | c :: cs =>
    if p (c :: cs) then some ([], c :: cs)
    else (cut? p cs).map fun (before, rest) => (c :: before, rest)

/-- As `cut?`, and the whole text if `p` holds nowhere in it. -/
def cut (p : List Char → Bool) (cs : List Char) : List Char × List Char :=
  (cut? p cs).getD (cs, [])

/-- The next character is `c`. -/
def startsWith (c : Char) : List Char → Bool
  | [] => false
  | d :: _ => d == c

/-- The next character satisfies `p`. -/
def startsWhere (p : Char → Bool) : List Char → Bool
  | [] => false
  | d :: _ => p d

/-- A cut loses nothing. -/
theorem cut?_append {p : List Char → Bool} {cs a b : List Char} (h : cut? p cs = some (a, b)) :
    a ++ b = cs := by
  induction cs generalizing a b with
  | nil => simp [cut?] at h
  | cons c cs ih =>
    rw [cut?] at h
    split at h
    · simp only [Option.some.injEq, Prod.mk.injEq] at h
      obtain ⟨rfl, rfl⟩ := h
      rfl
    · obtain ⟨⟨a', b'⟩, hcut, heq⟩ := Option.map_eq_some_iff.1 h
      simp only [Prod.mk.injEq] at heq
      obtain ⟨rfl, rfl⟩ := heq
      simp [ih hcut]

/-- The test holds at the place of the cut. -/
theorem cut?_holds {p : List Char → Bool} {cs a b : List Char} (h : cut? p cs = some (a, b)) :
    p b = true := by
  induction cs generalizing a b with
  | nil => simp [cut?] at h
  | cons c cs ih =>
    rw [cut?] at h
    split at h
    · rename_i hp
      simp only [Option.some.injEq, Prod.mk.injEq] at h
      obtain ⟨rfl, rfl⟩ := h
      exact hp
    · obtain ⟨⟨a', b'⟩, hcut, heq⟩ := Option.map_eq_some_iff.1 h
      simp only [Prod.mk.injEq] at heq
      obtain ⟨rfl, rfl⟩ := heq
      exact ih hcut

/-- What is left after a cut is no longer than the whole. -/
theorem cut?_length {p : List Char → Bool} {cs a b : List Char} (h : cut? p cs = some (a, b)) :
    b.length ≤ cs.length := by
  rw [← cut?_append h]
  simp

/-- A cut that may fall at the end loses nothing either. -/
theorem cut_append (p : List Char → Bool) (cs : List Char) :
    (cut p cs).1 ++ (cut p cs).2 = cs := by
  unfold cut
  cases h : cut? p cs with
  | none => simp
  | some ab => exact cut?_append h

/-- What is left after a cut is no longer than the whole. -/
theorem cut_length (p : List Char → Bool) (cs : List Char) : (cut p cs).2.length ≤ cs.length := by
  have h := congrArg List.length (cut_append p cs)
  simp only [List.length_append] at h
  omega

/-- Dropping characters never makes a text longer. -/
theorem dropWhile_length (p : Char → Bool) (cs : List Char) :
    (cs.dropWhile p).length ≤ cs.length := by
  induction cs with
  | nil => simp
  | cons c cs ih =>
    rw [List.dropWhile_cons]
    split
    · simp only [List.length_cons]
      omega
    · simp

end TypedTemplate.Text
