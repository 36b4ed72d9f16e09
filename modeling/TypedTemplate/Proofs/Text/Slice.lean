/-
# `TypedTemplate.Proofs.Text.Slice` — spans that cover characters

A span covers characters of a text exactly if the text is cut by it into what stands before,
what it covers and what comes after (`slice?_eq_some`).  A span may be inside the text and still
begin or end within a character; then it covers none.
-/
import TypedTemplate.Text.Location
import TypedTemplate.Text.Slice

namespace TypedTemplate

/-- A join ends where the later of the two ends. -/
theorem Span.stop_join (a b : Span) : (a.join b).stop = max a.stop b.stop := by
  simp only [join, stop]
  omega

theorem Span.eq_ofChars {s : Span} {n : Nat} {cs : List Char} (hstart : s.start = n)
    (hstop : s.stop = s.start + Text.size cs) : s = .ofChars n cs := by
  obtain ⟨start, length⟩ := s
  subst hstart
  have hlength : length = Text.size cs := Nat.add_left_cancel hstop
  rw [ofChars, hlength]

namespace Text

variable {cs before after taken rest : List Char} {n : Nat} {s s' : Span}

theorem size_eq_zero : size cs = 0 ↔ cs = [] := by
  cases cs with
  | nil => simp
  | cons c cs =>
      have hpos := c.utf8Size_pos
      simp only [size_cons, reduceCtorEq, iff_false]
      omega

theorem utf8Size_eq_one {c : Char} (h : c.toNat ≤ 127) : c.utf8Size = 1 := by
  have hval : c.val ≤ 127 := h
  simp [Char.utf8Size, hval]

theorem dropBytes?_eq_some : dropBytes? n cs = some rest ↔
    ∃ before, cs = before ++ rest ∧ size before = n := by
  constructor
  · intro h
    induction cs generalizing n with
    | nil =>
        rw [dropBytes?] at h
        split at h
        · rename_i hn
          cases h
          exact ⟨[], rfl, hn.symm⟩
        · cases h
    | cons c cs ih =>
        rw [dropBytes?] at h
        split at h
        · rename_i hn
          cases h
          exact ⟨[], rfl, hn.symm⟩
        · split at h
          · rename_i hle
            obtain ⟨before, rfl, hsize⟩ := ih h
            exact ⟨c :: before, rfl, by rw [size_cons, hsize]; omega⟩
          · cases h
  · rintro ⟨before, rfl, rfl⟩
    exact dropBytes?_append before rest

theorem takeBytes?_eq_some : takeBytes? n cs = some taken ↔
    ∃ rest, cs = taken ++ rest ∧ size taken = n := by
  constructor
  · intro h
    induction cs generalizing n taken with
    | nil =>
        rw [takeBytes?] at h
        split at h
        · rename_i hn
          cases h
          exact ⟨[], rfl, hn.symm⟩
        · cases h
    | cons c cs ih =>
        rw [takeBytes?] at h
        split at h
        · rename_i hn
          cases h
          exact ⟨c :: cs, rfl, hn.symm⟩
        · split at h
          · rename_i hle
            obtain ⟨more, hmore, rfl⟩ := Option.map_eq_some_iff.1 h
            obtain ⟨rest, rfl, hsize⟩ := ih hmore
            exact ⟨rest, rfl, by rw [size_cons, hsize]; omega⟩
          · cases h
  · rintro ⟨rest, rfl, rfl⟩
    exact takeBytes?_append taken rest

theorem slice?_eq_some : slice? cs s = some taken ↔
    ∃ before after, cs = before ++ taken ++ after ∧ s = .ofChars (size before) taken := by
  constructor
  · intro h
    obtain ⟨rest, hdrop, htake⟩ := Option.bind_eq_some_iff.1 h
    obtain ⟨before, rfl, hstart⟩ := dropBytes?_eq_some.1 hdrop
    obtain ⟨after, rfl, hlength⟩ := takeBytes?_eq_some.1 htake
    refine ⟨before, after, (List.append_assoc before taken after).symm, ?_⟩
    rw [Span.ofChars, hstart, hlength]
  · rintro ⟨before, after, rfl, rfl⟩
    exact slice?_append before taken after

/-- A span of a part of a text, moved to where the part stands, covers the same characters. -/
theorem slice?_slice? {part : List Char} (hpart : slice? cs s = some part)
    (h : slice? part s' = some taken) :
    slice? cs ⟨s.start + s'.start, s'.length⟩ = some taken := by
  obtain ⟨before, after, rfl, rfl⟩ := slice?_eq_some.1 hpart
  obtain ⟨before', after', rfl, rfl⟩ := slice?_eq_some.1 h
  refine slice?_eq_some.2 ⟨before ++ before', after' ++ after, by simp, ?_⟩
  simp only [Span.ofChars, size_append]

/-! ## Places between characters -/

/-- A character begins at the offset, or the text ends there. -/
def Boundary (cs : List Char) (n : Nat) : Prop :=
  ∃ before after, cs = before ++ after ∧ size before = n

/-- The span covers characters of the text. -/
def Lies (cs : List Char) (s : Span) : Prop := ∃ taken, slice? cs s = some taken

theorem lies_append (before taken after : List Char) :
    Lies (before ++ taken ++ after) (.ofChars (size before) taken) :=
  ⟨taken, slice?_append before taken after⟩

/-- Of two beginnings of a text the one with more bytes has all characters of the other. -/
theorem prefix_of_size_le {a b : List Char} (ha : a <+: cs) (hb : b <+: cs)
    (hsize : size a ≤ size b) : a <+: b := by
  rcases Nat.le_total a.length b.length with hle | hle
  · exact List.prefix_of_prefix_length_le ha hb hle
  · obtain ⟨more, rfl⟩ := List.prefix_of_prefix_length_le hb ha hle
    have hmore : more = [] := size_eq_zero.1 (by rw [size_append] at hsize; omega)
    exact ⟨[], by rw [hmore, List.append_nil, List.append_nil]⟩

end Text

end TypedTemplate
