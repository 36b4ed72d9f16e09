/-
# `TypedTemplate.Proofs.Text.Offsets` — a text read at byte offsets

The scanners of this library walk a text as a list of characters, and never look a place up.
A reader may as well hold the whole text and an offset, compute further offsets from it and
slice the text between them; then it fails where an offset is past the end or inside a
character, or a slice ends before it begins.  Here is what such a reader does, with `none` for a
failure: it slices (`between?`, beside `dropBytes?` and `takeBytes?`), it looks for the place
where something begins (`find?`), and it tries one place after the other (`placesFrom`), slicing
the text at each.

Each operation succeeds at the offset of a place between characters, and finds there what
cutting the characters finds (`between?_eq_some`, `findM?_places`).
-/
import TypedTemplate.Proofs.Text.Cut
import TypedTemplate.Proofs.Text.Slice

namespace TypedTemplate.Text

variable {p q : List Char → Bool} {text cs before taken rest : List Char} {i j n : Nat}

/-! ## Slices -/

/-- The characters from the offset `i` to the offset `j`. -/
def between? (cs : List Char) (i j : Nat) : Option (List Char) :=
  if i ≤ j then slice? cs ⟨i, j - i⟩ else none

theorem between?_eq_some : between? cs i j = some taken ↔ ∃ before after,
    cs = before ++ taken ++ after ∧ i = size before ∧ j = size before + size taken := by
  rw [between?]
  constructor
  · intro h
    split at h
    · rename_i hle
      obtain ⟨before, after, hcs, hspan⟩ := slice?_eq_some.1 h
      obtain ⟨hstart, hlength⟩ := Span.mk.inj hspan
      exact ⟨before, after, hcs, hstart, by omega⟩
    · cases h
  · rintro ⟨before, after, rfl, rfl, rfl⟩
    rw [if_pos (Nat.le_add_right _ _), Nat.add_sub_cancel_left]
    exact slice?_append before taken after

/-- Characters that an offset has before it and after it. -/
theorem size_of_dropBytes? (h : dropBytes? n cs = some rest) : n + size rest = size cs := by
  obtain ⟨before, rfl, rfl⟩ := dropBytes?_eq_some.1 h
  exact (size_append before rest).symm

/-- Nothing is dropped before the first character. -/
theorem dropBytes?_zero (cs : List Char) : dropBytes? 0 cs = some cs := by
  cases cs <;> rfl

/-- Dropping in two steps. -/
theorem dropBytes?_add (h : dropBytes? n text = some cs) (m : Nat) :
    dropBytes? (n + m) text = dropBytes? m cs := by
  obtain ⟨before, rfl, rfl⟩ := dropBytes?_eq_some.1 h
  induction before with
  | nil => rw [size_nil, Nat.zero_add, List.nil_append]
  | cons c before ih =>
      have hpos := c.utf8Size_pos
      have hsub : c.utf8Size + size before + m - c.utf8Size = size before + m := by omega
      rw [List.cons_append, dropBytes?, size_cons, if_neg (by omega), if_pos (by omega), hsub]
      exact ih (dropBytes?_append before cs)

/-- Dropping a run of characters of one kind. -/
theorem dropBytes?_dropWhile (h : dropBytes? n text = some cs) (p : Char → Bool) :
    dropBytes? (n + size (cs.takeWhile p)) text = some (cs.dropWhile p) := by
  have hdrop := dropBytes?_append (cs.takeWhile p) (cs.dropWhile p)
  rwa [List.takeWhile_append_dropWhile, ← dropBytes?_add h] at hdrop

/-- What stands at an offset is covered by the span that begins there. -/
theorem lies_of_dropBytes? (h : dropBytes? n text = some (taken ++ rest)) :
    Lies text (.ofChars n taken) := by
  obtain ⟨before, rfl, rfl⟩ := dropBytes?_eq_some.1 h
  rw [← List.append_assoc]
  exact lies_append before taken rest

/-- The characters between two offsets, and those after the second. -/
structure Piece where
  chars : List Char
  span : Span
  rest : List Char

/-- Takes the piece from `start` to `stop`. -/
def piece? (text : List Char) (start stop : Nat) : Option Piece := do
  let chars ← between? text start stop
  let rest ← dropBytes? stop text
  return ⟨chars, ⟨start, stop - start⟩, rest⟩

theorem between?_of_dropBytes? (htext : dropBytes? i text = some (taken ++ rest))
    (hj : j = i + size taken) : between? text i j = some taken := by
  obtain ⟨before, hbefore, rfl⟩ := dropBytes?_eq_some.1 htext
  exact between?_eq_some.2 ⟨before, rest, by rw [hbefore, List.append_assoc], rfl, hj⟩

theorem piece?_eq_some (htext : dropBytes? i text = some (taken ++ rest)) (hj : j = i + size taken) :
    piece? text i j = some ⟨taken, .ofChars i taken, rest⟩ := by
  have hrest : dropBytes? j text = some rest := by
    rw [hj, dropBytes?_add htext]
    exact dropBytes?_append taken rest
  have hlength : j - i = size taken := by omega
  simp only [piece?, between?_of_dropBytes? htext hj, hrest, hlength, Option.bind_eq_bind,
    Option.bind_some, Span.ofChars, Option.pure_def]

/-! ## Places -/

/-- The offset of the first place where something begins. -/
def find? (p : List Char → Bool) (cs : List Char) : Option Nat :=
  (cut? p cs).map fun (before, _) => size before

theorem find?_of_cut? (h : cut? p cs = some (before, rest)) : find? p cs = some (size before) := by
  rw [find?, h, Option.map_some]

theorem find?_eq_none (h : cut? p cs = none) : find? p cs = none := by
  rw [find?, h, Option.map_none]

theorem find?_cons_of_neg {c : Char} (h : p (c :: cs) = false) :
    find? p (c :: cs) = (find? p cs).map fun i => c.utf8Size + i := by
  rw [find?, cut?, h, if_neg Bool.false_ne_true, find?]
  cases cut? p cs <;> rfl

/-- The place where something begins, or the end of the text. -/
theorem find?_getD (p : List Char → Bool) (cs : List Char) :
    (find? p cs).getD (size cs) = size (cut p cs).1 := by
  rw [find?, cut]
  cases cut? p cs <;> rfl

/-- A run of characters goes to the first that is not of its kind. -/
theorem find?_not_getD (p : Char → Bool) (cs : List Char) :
    (find? (startsWhere fun c => !p c) cs).getD (size cs) = size (cs.takeWhile p) := by
  induction cs with
  | nil => rfl
  | cons c cs ih =>
      cases hc : p c with
      | false => simp [find?, cut?, startsWhere, hc]
      | true =>
          have hnot : (startsWhere fun c => !p c) (c :: cs) = false := by simp [startsWhere, hc]
          rw [find?_cons_of_neg hnot, List.takeWhile_cons_of_pos hc, size_cons, size_cons, ← ih]
          cases find? (startsWhere fun c => !p c) cs <;> rfl

/-- The offsets of all places where something begins, counted from `n`. -/
def placesFrom (p : List Char → Bool) (n : Nat) : List Char → List Nat
  | [] => []
  | c :: cs =>
    if p (c :: cs) then n :: placesFrom p (n + c.utf8Size) cs
    else placesFrom p (n + c.utf8Size) cs

/-- The offsets of all places where something begins. -/
def places (p : List Char → Bool) (cs : List Char) : List Nat := placesFrom p 0 cs

theorem le_of_mem_placesFrom (h : i ∈ placesFrom p n cs) : n ≤ i := by
  induction cs generalizing n with
  | nil => cases h
  | cons c cs ih =>
      rw [placesFrom] at h
      split at h
      · rcases List.mem_cons.1 h with rfl | h
        · exact Nat.le_refl _
        · exact Nat.le_trans (Nat.le_add_right _ _) (ih h)
      · exact Nat.le_trans (Nat.le_add_right _ _) (ih h)

/-- The places after the first character. -/
theorem filter_places (p : List Char → Bool) (c : Char) (cs : List Char) :
    (places p (c :: cs)).filter (0 < ·) = placesFrom p c.utf8Size cs := by
  have hlater : (placesFrom p c.utf8Size cs).filter (0 < ·) = placesFrom p c.utf8Size cs :=
    List.filter_eq_self.2 fun i hi =>
      decide_eq_true (Nat.lt_of_lt_of_le c.utf8Size_pos (le_of_mem_placesFrom hi))
  rw [places, placesFrom, Nat.zero_add]
  split
  · rwa [List.filter_cons_of_neg (by simp)]
  · exact hlater

/-- Trying the places one after the other finds the first where a further test holds, if the trial
of each succeeds. -/
theorem findM?_places {f : Nat → Option Bool}
    (h : ∀ before rest, cs = before ++ rest → p rest = true →
      f (n + size before) = some (q rest)) :
    (placesFrom p n cs).findM? f =
      some ((find? (fun rest => p rest && q rest) cs).map fun i => n + i) := by
  induction cs generalizing n with
  | nil => rfl
  | cons c cs ih =>
      have hrest := ih fun before rest hcs hp => by
        rw [Nat.add_assoc]
        exact h (c :: before) rest (by rw [hcs]; rfl) hp
      have hlater (hneg : (p (c :: cs) && q (c :: cs)) = false) :
          (placesFrom p (n + c.utf8Size) cs).findM? f =
            some ((find? (fun rest => p rest && q rest) (c :: cs)).map fun i => n + i) := by
        have hassoc : (fun i => n + i) ∘ (fun i => c.utf8Size + i) = fun i => n + c.utf8Size + i :=
          funext fun i => (Nat.add_assoc n c.utf8Size i).symm
        rw [hrest, find?_cons_of_neg hneg, Option.map_map, hassoc]
      rw [placesFrom]
      cases hp : p (c :: cs) with
      | false => exact hlater (by rw [hp]; rfl)
      | true =>
          have hfirst : f n = some (q (c :: cs)) := h [] (c :: cs) rfl hp
          cases hq : q (c :: cs) with
          | false => simpa [List.findM?, hfirst, hq] using hlater (by rw [hq, Bool.and_false])
          | true => simp [List.findM?, hfirst, hp, hq, find?, cut?]

/-- As before, with the slice of the text at each place for the trial. -/
theorem findM?_slices (hcs : dropBytes? n text = some cs) :
    (placesFrom p n cs).findM? (fun i => (dropBytes? i text).map q) =
      some ((find? (fun rest => p rest && q rest) cs).map fun i => n + i) := by
  refine findM?_places fun before rest hsplit _ => ?_
  rw [dropBytes?_add hcs, hsplit, dropBytes?_append]
  rfl

end TypedTemplate.Text
