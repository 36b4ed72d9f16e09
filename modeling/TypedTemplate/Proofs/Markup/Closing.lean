/-
# `TypedTemplate.Proofs.Markup.Closing` — the names in end tags

The name in an end tag is what stands there without the blank space after it.  The body of
a raw text element ends before an end tag whose name begins like the element's, in
capitals or not; what follows in that tag may be more than a name.  Whatever it is, it
still ends the body when it is written as `closingName` gives it (`EndsBody.closingName`),
and it is not the name of a void element (`EndsBody.not_isVoid`).
-/
import Mathlib.Data.List.DropRight
import TypedTemplate.Proofs.Text.Cut
import TypedTemplate.Markup.Builder
import TypedTemplate.Markup.Scan

/-- Dropping from the right stops at a part where nothing may be dropped. -/
theorem List.rdropWhile_append_of_neg {α : Type} {p : α → Bool} {x z : List α}
    (h : ∀ a ∈ x, p a = false) : (x ++ z).rdropWhile p = x ++ z.rdropWhile p := by
  have hx : x.reverse.dropWhile p = x.reverse := by
    rw [List.dropWhile_eq_self_iff]
    intro hlen
    rw [h _ (List.mem_reverse.1 (List.getElem_mem hlen))]
    exact Bool.false_ne_true
  unfold List.rdropWhile
  rw [List.reverse_append, List.dropWhile_append, hx]
  split
  · rename_i hz
    rw [List.isEmpty_iff.1 hz]
    simp
  · simp

namespace TypedTemplate

open Text

/-- Where the ASCII letters are among the characters. -/
theorem Text.toNat_of_isAlpha {c : Char} (h : c.isAlpha = true) :
    (65 ≤ c.toNat ∧ c.toNat ≤ 90) ∨ (97 ≤ c.toNat ∧ c.toNat ≤ 122) := by
  change (decide (c.val ≥ 65 ∧ c.val ≤ 90) ||
    (decide (c.val ≥ 97) && decide (c.val ≤ 122))) = true at h
  simp only [Bool.or_eq_true, Bool.and_eq_true, decide_eq_true_eq, ge_iff_le,
    UInt32.le_iff_toNat_le] at h
  exact h

theorem Text.isBlank_of_isAlpha {c : Char} (h : c.isAlpha = true) : isBlank c = false := by
  have hrange := toNat_of_isAlpha h
  simp only [isBlank, inRanges, blankRanges, Ranges.holds]
  rw [if_neg (by omega), if_neg (by omega), if_pos (by omega)]
  simp only [Bool.or_false, Bool.or_eq_false_iff, decide_eq_false_iff_not]
  omega

theorem Text.isAlpha_of_toLower {c : Char} (h : c.toLower.isLower = true) : c.isAlpha = true := by
  unfold Char.toLower at h
  refine Bool.or_eq_true_iff.2 ?_
  split at h
  · rename_i hu
    exact Or.inl (decide_eq_true hu)
  · exact Or.inr h

namespace Markup

theorem toList_closingName (inner : String) :
    (closingName inner).toList = inner.toList.rdropWhile isBlank := by
  simp [closingName, List.rdropWhile]

@[simp] theorem closingName_closingName (inner : String) :
    closingName (closingName inner) = closingName inner := by
  rw [← String.toList_inj, toList_closingName, toList_closingName, List.rdropWhile_idempotent]

theorem mem_of_mem_closingName {inner : String} {c : Char} (h : c ∈ (closingName inner).toList) :
    c ∈ inner.toList := by
  rw [toList_closingName] at h
  exact (List.rdropWhile_prefix isBlank inner.toList).subset h

/-! ## End tags of raw text elements -/

/-- Raw text elements have names of small letters. -/
theorem isLower_of_isRawText {name : String} (h : isRawText name = true) :
    ∀ c ∈ name.toList, c.isLower = true := by
  have hall : (rawTextElements.all fun name => name.toList.all Char.isLower) = true := by decide
  simp only [List.all_eq_true] at hall
  exact hall name (by simpa [isRawText] using h)

/-- What stands in an end tag that ends the body of the element `name`: the name, in capitals or
not, and then nothing, or blank space first. -/
def EndsBody (name inner : List Char) : Prop :=
  ∃ x z, inner = x ++ z ∧ x.map Char.toLower = name ∧
    (z = [] ∨ startsWhere isAsciiBlank z = true)

theorem endsRawText_iff {name cs : List Char} : endsRawText name cs = true ↔
    ∃ x y, cs = '<' :: '/' :: (x ++ y) ∧ x.map Char.toLower = name ∧
      startsWhere (fun c => c == '>' || isAsciiBlank c) y = true := by
  constructor
  · intro h
    unfold endsRawText at h
    split at h
    · rename_i t
      rw [Bool.and_eq_true, beq_iff_eq] at h
      exact ⟨t.take name.length, t.drop name.length, by rw [List.take_append_drop], h.1, h.2⟩
    · cases h
  · rintro ⟨x, y, rfl, rfl, hy⟩
    simp [endsRawText, hy]

theorem endsRawText_of_endsBody {name inner : List Char} (h : EndsBody name inner)
    (rest : List Char) : endsRawText name ('<' :: '/' :: (inner ++ '>' :: rest)) = true := by
  obtain ⟨x, z, rfl, hx, hz⟩ := h
  refine endsRawText_iff.2 ⟨x, z ++ '>' :: rest, by simp, hx, ?_⟩
  rcases hz with rfl | hz
  · rfl
  · cases z with
    | nil => cases hz
    | cons c z => exact Bool.or_eq_true_iff.2 (Or.inr hz)

section

variable {name : String} (hraw : isRawText name = true)

include hraw

theorem isAlpha_of_raw {x : List Char} (hx : x.map Char.toLower = name.toList) :
    ∀ c ∈ x, c.isAlpha = true := by
  intro c hc
  refine Text.isAlpha_of_toLower (isLower_of_isRawText hraw _ ?_)
  rw [← hx]
  exact List.mem_map_of_mem hc

/-- The body of a raw text element is followed by `<`, and what comes after that does not matter
inside the body. -/
theorem endsRawText_append {c : Char} {s rest : List Char} :
    endsRawText name.toList (c :: (s ++ '<' :: rest)) = true ↔
      ∃ x z, c :: s = '<' :: '/' :: (x ++ z) ∧ x.map Char.toLower = name.toList ∧
        startsWhere (fun c => c == '>' || isAsciiBlank c) z = true := by
  rw [endsRawText_iff]
  constructor
  · rintro ⟨x, y, heq, hx, hy⟩
    obtain ⟨rfl, htail⟩ := List.cons.inj heq
    cases s with
    | nil => cases htail
    | cons d s =>
        obtain ⟨rfl, hname⟩ := List.cons.inj htail
        rcases List.append_eq_append_iff.1 hname with ⟨w, rfl, hw⟩ | ⟨z, rfl, rfl⟩
        · cases w with
          | nil =>
              rw [show y = '<' :: rest from hw.symm] at hy
              cases hy
          | cons e w =>
              -- the `<` would stand in the name
              obtain ⟨rfl, -⟩ := List.cons.inj hw
              exact absurd (isAlpha_of_raw hraw hx '<' (by simp)) (by decide)
        · cases z with
          | nil => cases hy
          | cons e z => exact ⟨x, e :: z, rfl, hx, hy⟩
  · rintro ⟨x, z, heq, hx, hz⟩
    refine ⟨x, z ++ '<' :: rest, ?_, hx, ?_⟩
    · rw [← List.cons_append, heq]
      simp
    · cases z with
      | nil => cases hz
      | cons e z => exact hz

/-- The name that `closingName` finds ends the body as well. -/
theorem EndsBody.closingName {inner : String} (h : EndsBody name.toList inner.toList) :
    EndsBody name.toList (Markup.closingName inner).toList := by
  obtain ⟨x, z, heq, hx, hz⟩ := h
  have halpha := isAlpha_of_raw hraw hx
  refine ⟨x, z.rdropWhile isBlank, ?_, hx, ?_⟩
  · rw [toList_closingName, heq]
    exact List.rdropWhile_append_of_neg fun c hc => isBlank_of_isAlpha (halpha c hc)
  · cases hdrop : z.rdropWhile isBlank with
    | nil => exact Or.inl rfl
    | cons c z' =>
        refine Or.inr ?_
        obtain ⟨more, hmore⟩ := List.rdropWhile_prefix isBlank z
        rw [hdrop] at hmore
        rw [← hmore] at hz
        exact hz.resolve_left (by simp)

/-- An end tag in which the body of a raw text element ends is not a void element's. -/
theorem EndsBody.not_isVoid {inner : String} (h : EndsBody name.toList inner.toList) :
    isVoid inner = false := by
  obtain ⟨x, z, heq, hx, -⟩ := h
  have htake : (inner.toList.take name.toList.length).map Char.toLower = name.toList := by
    rw [heq, ← hx, List.length_map, List.take_left]
  have hall : (rawTextElements.all fun name => voidElements.all fun v =>
      (v.toList.take name.toList.length).map Char.toLower != name.toList) = true := by decide
  simp only [List.all_eq_true, bne_iff_ne] at hall
  rw [Bool.eq_false_iff]
  intro hvoid
  exact hall name (by simpa [isRawText] using hraw) inner (by simpa [isVoid] using hvoid) htake

/-- The body of a raw text element is followed by an end tag that ends it. -/
theorem closeTag_of_endsRawText {cs inner rest : List Char}
    (h : endsRawText name.toList ('<' :: '/' :: cs) = true)
    (hcut : cut? (startsWith '>') cs = some (inner, rest)) : EndsBody name.toList inner := by
  obtain ⟨x, y, heq, hx, hy⟩ := endsRawText_iff.1 h
  obtain ⟨rfl, hne, hrest, hclear⟩ := cut?_eq_some.1 hcut
  have halpha := isAlpha_of_raw hraw hx
  simp only [List.cons.injEq, true_and] at heq
  rcases List.append_eq_append_iff.1 heq with ⟨w, rfl, hw⟩ | ⟨z, rfl, rfl⟩
  · cases w with
    | nil => exact ⟨inner, [], (List.append_nil inner).symm, by simpa using hx, Or.inl rfl⟩
    | cons c w =>
        -- the tag would end inside the name
        rw [hw] at hrest
        rw [show c = '>' from beq_iff_eq.1 hrest] at halpha
        exact absurd (halpha '>' (by simp)) (by decide)
  · refine ⟨x, z, rfl, hx, ?_⟩
    cases z with
    | nil => exact Or.inl rfl
    | cons c z =>
        rcases Bool.or_eq_true_iff.1 hy with hc | hc
        · rw [Clear.startsWith, beq_iff_eq.1 hc] at hclear
          exact absurd (by simp) hclear
        · exact Or.inr hc

end

end Markup

end TypedTemplate
