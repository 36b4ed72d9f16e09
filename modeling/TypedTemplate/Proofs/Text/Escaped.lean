/-
# `TypedTemplate.Proofs.Text.Escaped` — what escaped text cannot contain

Escaped text has none of the characters that tags and quoted values begin and end with, and
an `&` in it is always the first character of one of the five entities.  The second is a
statement on places in a text (`Text.AmpersandsBegin`); it is kept when texts are put
together, since an entity that has begun is not broken off by what follows.
-/
import TypedTemplate.Text.Escaped

namespace TypedTemplate.Text

/-- The characters that tags and quoted values begin and end with. -/
def isDelimiter (c : Char) : Bool := ['<', '>', '"', '\''].contains c

/-- What the special characters are written as. -/
def entities : List (List Char) :=
  ["&amp;".toList, "&lt;".toList, "&gt;".toList, "&quot;".toList, "&#39;".toList]

/-- Wherever there is an ampersand, an entity begins. -/
def AmpersandsBegin (cs : List Char) : Prop :=
  ∀ before after, cs = before ++ '&' :: after → ∃ entity ∈ entities, entity <+: '&' :: after

theorem AmpersandsBegin.of_not_mem {cs : List Char} (h : '&' ∉ cs) : AmpersandsBegin cs := by
  rintro before after rfl
  exact (h (by simp)).elim

theorem AmpersandsBegin.append {cs ds : List Char} (hc : AmpersandsBegin cs)
    (hd : AmpersandsBegin ds) : AmpersandsBegin (cs ++ ds) := by
  intro before after h
  rcases List.append_eq_append_iff.1 h with ⟨inner, -, hds⟩ | ⟨inner, rfl, hafter⟩
  · exact hd inner after hds
  · cases inner with
    | nil => exact hd [] after hafter.symm
    | cons c inner =>
        rw [List.cons_append] at hafter
        cases hafter
        obtain ⟨entity, hmem, hprefix⟩ := hc before inner rfl
        exact ⟨entity, hmem, hprefix.trans (List.prefix_append ('&' :: inner) ds)⟩

/-- An entity by itself. -/
theorem AmpersandsBegin.of_entity {tail : List Char} (hmem : '&' :: tail ∈ entities)
    (hrest : '&' ∉ tail) : AmpersandsBegin ('&' :: tail) := by
  intro before after h
  cases before with
  | nil =>
      cases h
      exact ⟨_, hmem, List.prefix_rfl⟩
  | cons c before =>
      cases h
      exact (hrest (by simp)).elim

/-- Each character is written as one of the entities or as itself. -/
theorem escapeChar_cases (c : Char) : (∃ tail, escapeChar c = '&' :: tail ∧ '&' :: tail ∈ entities ∧
    '&' ∉ tail ∧ ∀ d ∈ tail, isDelimiter d = false) ∨
      (escapeChar c = [c] ∧ c ≠ '&' ∧ isDelimiter c = false) := by
  unfold escapeChar
  repeat' split
  · exact Or.inl ⟨_, rfl, by decide, by decide, by simp [isDelimiter]⟩
  · exact Or.inl ⟨_, rfl, by decide, by decide, by simp [isDelimiter]⟩
  · exact Or.inl ⟨_, rfl, by decide, by decide, by simp [isDelimiter]⟩
  · exact Or.inl ⟨_, rfl, by decide, by decide, by simp [isDelimiter]⟩
  · exact Or.inl ⟨_, rfl, by decide, by decide, by simp [isDelimiter]⟩
  · rename_i hamp hlt hgt hquot happ
    exact Or.inr ⟨rfl, hamp, by simp [isDelimiter, hlt, hgt, hquot, happ]⟩

theorem escape_cons (c : Char) (cs : List Char) : escape (c :: cs) = escapeChar c ++ escape cs := by
  simp [escape]

/-- Escaped text delimits nothing. -/
theorem escape_delimiters (cs : List Char) : (escape cs).filter isDelimiter = [] := by
  rw [List.filter_eq_nil_iff]
  induction cs with
  | nil => simp [escape]
  | cons c cs ih =>
      rw [escape_cons, List.forall_mem_append]
      refine ⟨?_, ih⟩
      rcases escapeChar_cases c with ⟨tail, h, -, -, htail⟩ | ⟨h, -, hc⟩
      · rw [h, List.forall_mem_cons]
        exact ⟨by decide, fun d hd => by simp [htail d hd]⟩
      · simp [h, hc]

/-- Every ampersand in escaped text begins an entity. -/
theorem escape_ampersands (cs : List Char) : AmpersandsBegin (escape cs) := by
  induction cs with
  | nil => exact .of_not_mem (by simp [escape])
  | cons c cs ih =>
      rw [escape_cons]
      refine .append ?_ ih
      rcases escapeChar_cases c with ⟨tail, h, hmem, hrest, -⟩ | ⟨h, hc, -⟩
      · rw [h]
        exact .of_entity hmem hrest
      · rw [h]
        exact .of_not_mem (by simpa using hc.symm)

end TypedTemplate.Text
