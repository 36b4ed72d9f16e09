/-
# `TypedTemplate.Proofs.Fragment.Directives` — the directives of an element that compiles

Directives are gathered one attribute after another, and a second attribute for the same
directive is refused.  So gathering succeeds exactly if no directive is asked for twice, and
then each directive is given by the one attribute that asks for it: it could as well be
looked up among the attributes.
-/
import TypedTemplate.Proofs.Except
import TypedTemplate.Fragment.Directives

namespace TypedTemplate

open Markup

/-- The name of a controlling directive. -/
def Control.name : Control → String
  | .loop => "for"
  | .condition => "if"
  | .text => "text"
  | .html => "html"

theorem Control.ofName?_eq_some {name : String} {control : Control} :
    Control.ofName? name = some control ↔ name = control.name := by
  rw [Control.ofName?]
  constructor
  · intro h
    split at h
    · cases h; assumption
    · split at h
      · cases h; assumption
      · split at h
        · cases h; assumption
        · split at h
          · cases h; assumption
          · cases h
  · rintro rfl
    cases control <;> decide

/-- The attribute asks for a controlling directive. -/
theorem Markup.Attribute.control?_eq_some {config : Config} {a : Attribute} {control : Control} :
    a.control? config = some control ↔
      a.dynamic = true ∧ config.directive? a.name = some control.name := by
  rw [Attribute.control?]
  split
  · rename_i h
    simp [h, Option.bind_eq_some_iff, Control.ofName?_eq_some]
  · rename_i h
    simp [h]

namespace Directives

variable {config : Config}

theorem get?_set (ds : Directives) (control other : Control) (a : Attribute) :
    (ds.set control a).get? other = if other = control then some a else ds.get? other := by
  cases control <;> cases other <;> rfl

/-- What is gathered is what was there before, and then the first that asks. -/
theorem gather_get? {element : String} {attributes : List Attribute} {ds ds' : Directives}
    (h : gather config element ds attributes = .ok ds') (control : Control) :
    ds'.get? control =
      (ds.get? control).or (attributes.find? fun a => a.control? config == some control) := by
  induction attributes generalizing ds with
  | nil =>
      cases h
      simp
  | cons a rest ih =>
      rw [gather] at h
      cases hc : a.control? config with
      | none =>
          rw [hc] at h
          rw [ih h, List.find?_cons]
          simp [hc]
      | some asked =>
          rw [hc] at h
          dsimp only at h
          split at h
          · simp [refuse] at h
          · rename_i hnone
            rw [ih h, get?_set, List.find?_cons, hc]
            by_cases heq : control = asked
            · subst heq
              simp [hnone]
            · have : (some asked == some control) = false := by simp [Ne.symm heq]
              simp [heq, this]

/-- The directives of an element are the first attributes that ask for them. -/
theorem ofElement_get? {e : Element} {ds : Directives} (h : ofElement config e = .ok ds)
    (control : Control) :
    ds.get? control = e.attributes.find? fun a => a.control? config == some control := by
  obtain ⟨ds', hg, hrest⟩ := Except.bind_eq_ok.1 h
  split at hrest
  · simp [refuse] at hrest
  · cases Except.pure_eq_ok.1 hrest
    rw [gather_get? hg control]
    cases control <;> rfl

/-! ## Asking once -/

/-- How many of some attributes ask for a directive. -/
def asking (config : Config) (control : Control) (attributes : List Attribute) : Nat :=
  attributes.countP fun a => a.control? config == some control

theorem asking_eq_zero {control : Control} {attributes : List Attribute} :
    asking config control attributes = 0 ↔
      ∀ a ∈ attributes, a.control? config ≠ some control := by
  simp [asking, List.countP_eq_zero]

/-- If one attribute only asks, it is the first that asks. -/
theorem find?_of_asking {control : Control} {a : Attribute} {attributes : List Attribute}
    (hmem : a ∈ attributes) (hasks : a.control? config = some control)
    (honce : asking config control attributes ≤ 1) :
    (attributes.find? fun a => a.control? config == some control) = some a := by
  induction attributes with
  | nil => cases hmem
  | cons b rest ih =>
      rw [asking, List.countP_cons] at honce
      rw [List.find?_cons]
      by_cases hb : b.control? config = some control
      · simp only [hb, beq_self_eq_true, if_true] at honce ⊢
        rcases List.mem_cons.1 hmem with rfl | hrest
        · rfl
        · have hpos : 0 < rest.countP fun a => a.control? config == some control :=
            List.countP_pos_iff.2 ⟨a, hrest, by simp [hasks]⟩
          omega
      · have hne : (b.control? config == some control) = false := by simpa using hb
        simp only [hne] at honce ⊢
        rcases List.mem_cons.1 hmem with rfl | hrest
        · exact absurd hasks hb
        · exact ih hrest (by rw [asking]; omega)

/-- Whether a directive has been given already, as a number. -/
def given (ds : Directives) (control : Control) : Nat := (ds.get? control).toList.length

theorem given_set {ds : Directives} {asked : Control} {a : Attribute} (hnone : ds.get? asked = none)
    (control : Control) :
    (ds.set asked a).given control = ds.given control + if asked = control then 1 else 0 := by
  rw [given, given, get?_set]
  by_cases heq : control = asked
  · subst heq
    simp [hnone]
  · simp [heq, Ne.symm heq]

/-- Gathering succeeds if no directive is given twice, what was there before included. -/
theorem gather_succeeds {element : String} {attributes : List Attribute} {ds : Directives} :
    (gather config element ds attributes).Succeeds ↔
      ∀ control, ds.given control + asking config control attributes ≤ 1 := by
  induction attributes generalizing ds with
  | nil =>
      simp only [gather, Except.succeeds_ok, true_iff]
      intro control
      rw [given]
      cases ds.get? control <;> simp [asking]
  | cons a rest ih =>
      rw [gather]
      cases hc : a.control? config with
      | none => simp [ih, asking, hc]
      | some asked =>
          dsimp only
          cases hget : ds.get? asked with
          | some b =>
              simp only [refuse, Except.not_succeeds_error, false_iff]
              intro h
              have hgiven : ds.given asked = 1 := by simp [given, hget]
              have hasking : asking config asked (a :: rest) = asking config asked rest + 1 := by
                simp [asking, hc]
              have hle := h asked
              omega
          | none =>
              simp only [ih, given_set hget]
              refine forall_congr' fun control => ?_
              simp only [asking, List.countP_cons, hc]
              by_cases heq : asked = control
              · simp [heq]
                omega
              · simp [heq]

theorem get?_eq_none {element : String} {attributes : List Attribute} {ds : Directives}
    (h : gather config element {} attributes = .ok ds) (control : Control) :
    ds.get? control = none ↔ asking config control attributes = 0 := by
  have hstart : Directives.get? {} control = none := by cases control <;> rfl
  rw [gather_get? h control, hstart, Option.none_or, List.find?_eq_none, asking,
    List.countP_eq_zero]

/-- An element has directives if it asks for none of them twice, and not for both kinds of
content. -/
theorem ofElement_succeeds {e : Element} : (ofElement config e).Succeeds ↔
    (∀ control, asking config control e.attributes ≤ 1) ∧
      (asking config .text e.attributes = 0 ∨ asking config .html e.attributes = 0) := by
  have hstart : ∀ control, Directives.given {} control = 0 := by
    intro control
    cases control <;> rfl
  have honce : (gather config e.name {} e.attributes).Succeeds ↔
      ∀ control, asking config control e.attributes ≤ 1 := by
    rw [gather_succeeds]
    simp [hstart]
  rw [ofElement, Except.succeeds_bind, ← honce]
  constructor
  · rintro ⟨ds, hds, h⟩
    refine ⟨⟨ds, hds⟩, ?_⟩
    rw [← get?_eq_none hds .text, ← get?_eq_none hds .html]
    simp only [get?]
    cases htext : ds.text with
    | none => exact Or.inl rfl
    | some text =>
        cases hhtml : ds.html with
        | none => exact Or.inr rfl
        | some html => simp [htext, hhtml, refuse] at h
  · rintro ⟨⟨ds, hds⟩, h⟩
    refine ⟨ds, hds, ?_⟩
    rw [← get?_eq_none hds .text, ← get?_eq_none hds .html] at h
    simp only [get?] at h
    rcases h with h | h
    · simp [h]
    · cases htext : ds.text <;> simp [h]

/-- Once an element has directives, they are the attributes that ask for them. -/
theorem get?_eq_some {e : Element} {ds : Directives} (h : ofElement config e = .ok ds)
    (control : Control) {a : Attribute} : ds.get? control = some a ↔
      a ∈ e.attributes ∧ a.control? config = some control := by
  rw [ofElement_get? h control]
  constructor
  · intro hfind
    refine ⟨List.mem_of_find?_eq_some hfind, ?_⟩
    simpa using List.find?_some hfind
  · rintro ⟨hmem, hasks⟩
    have honce := (ofElement_succeeds.1 ⟨ds, h⟩).1 control
    exact find?_of_asking hmem hasks honce

/-- What replaces the content is the value of the attribute that asks to. -/
theorem content?_eq_some {e : Element} {ds : Directives} (h : ofElement config e = .ok ds)
    {a : Attribute} {escaping : Text.Escaping} : ds.content? config = some (a, escaping) ↔
      a ∈ e.attributes ∧ ((a.control? config = some .text ∧ escaping = config.escaping) ∨
        (a.control? config = some .html ∧ escaping = .disabled)) := by
  have htext : ds.text = some a ↔ a ∈ e.attributes ∧ a.control? config = some .text :=
    get?_eq_some h .text
  have hhtml : ds.html = some a ↔ a ∈ e.attributes ∧ a.control? config = some .html :=
    get?_eq_some h .html
  rw [and_or_left, ← and_assoc, ← and_assoc, ← htext, ← hhtml, content?]
  obtain ⟨ds', hgather, hboth⟩ := Except.bind_eq_ok.1 h
  split at hboth
  · simp [refuse] at hboth
  · rename_i hnot
    cases Except.pure_eq_ok.1 hboth
    cases ht : ds.text with
    | none => cases hh : ds.html <;> simp [eq_comm]
    | some text =>
        cases hh : ds.html with
        | none => simp [eq_comm]
        | some html => exact (hnot text html ht hh).elim

end Directives

end TypedTemplate
