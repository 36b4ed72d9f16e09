/-
# `TypedTemplate.Fields` — named entries in the order in which they were first given

Objects, object types and the registry keep what they hold under names, and the
order of the names can be seen: in listings, in the help of an error message.  A
collection is a list of pairs in which each name occurs once.  `put` overwrites an
entry where it stands and adds a new one at the end, so a repeated name keeps its
first place and takes its last entry.

`Entries` is the plain list, and `Fields` the list with the proof that its names are
distinct.  Values and types hold plain entries, since a type cannot be nested in a
structure that has a proof about what it holds.
-/
namespace TypedTemplate

/-- Named entries, first given first. -/
abbrev Entries (α : Type) := List (String × α)

namespace Entries

variable {α : Type}

/-- The entry under a name. -/
def get? (name : String) (entries : Entries α) : Option α := entries.lookup name

/-- Sets the entry under a name. -/
def put (name : String) (entry : α) : Entries α → Entries α
  | [] => [(name, entry)]
  | (key, old) :: rest =>
    if key = name then (key, entry) :: rest else (key, old) :: put name entry rest

/-- The names, first given first. -/
def names (entries : Entries α) : List String := entries.map Prod.fst

/-- Each name occurs once. -/
def Distinct (entries : Entries α) : Prop := (names entries).Nodup

/-- The names are those under which there is an entry. -/
theorem mem_names {entries : Entries α} {name : String} :
    name ∈ entries.names ↔ ∃ entry, entries.get? name = some entry := by
  rw [← Option.isSome_iff_exists, get?, List.lookup_isSome_iff]
  simp only [names, List.mem_map, beq_iff_eq, @eq_comm _ name]

/-- An entry that is found is one of the entries. -/
theorem mem_of_get? {entries : Entries α} {name : String} {entry : α}
    (h : entries.get? name = some entry) : (name, entry) ∈ entries := by
  obtain ⟨before, after, rfl, -⟩ := List.lookup_eq_some_iff.1 h
  exact List.mem_append_right before List.mem_cons_self

/-- What `put` has set is found again, and nothing else has changed. -/
theorem get?_put (entries : Entries α) (name key : String) (entry : α) :
    (entries.put name entry).get? key = if key = name then some entry else entries.get? key := by
  induction entries with
  | nil =>
    by_cases h : key = name
    · simp [put, get?, h]
    · simp [put, get?, List.lookup_cons, h, beq_eq_false_iff_ne.2 h]
  | cons pair rest ih =>
    obtain ⟨k, old⟩ := pair
    simp only [get?] at ih ⊢
    by_cases h : key = k
    · subst h
      by_cases hk : key = name <;> simp [put, hk]
    · have hb : (key == k) = false := beq_eq_false_iff_ne.2 h
      by_cases hk : k = name
      · subst hk
        simp [put, List.lookup_cons, hb, h]
      · simp [put, List.lookup_cons, hk, hb, ih]

/-- The names after `put`: as before, with a new name last. -/
theorem names_put (entries : Entries α) (name : String) (entry : α) :
    names (entries.put name entry) =
      if name ∈ names entries then names entries else names entries ++ [name] := by
  induction entries with
  | nil => simp [put, names]
  | cons pair rest ih =>
    obtain ⟨k, old⟩ := pair
    simp only [names] at ih ⊢
    by_cases hk : k = name
    · simp [put, hk]
    · have hne : name ≠ k := fun h => hk h.symm
      simp only [put, hk, if_false, List.map_cons, ih, List.mem_cons, hne, false_or]
      split
      · rename_i hm
        simp [hm]
      · rename_i hm
        simp [hm]

/-- `put` keeps names distinct. -/
theorem Distinct.put {entries : Entries α} (h : Distinct entries) (name : String) (entry : α) :
    Distinct (entries.put name entry) := by
  unfold Distinct at h ⊢
  rw [names_put]
  split
  · exact h
  · rename_i hmem
    rw [List.nodup_append]
    refine ⟨h, by simp, ?_⟩
    intro a ha b hb heq
    rw [List.mem_singleton] at hb
    subst hb
    subst heq
    exact hmem ha

end Entries

/-- Named entries, each name once. -/
structure Fields (α : Type) where
  entries : Entries α
  distinct : entries.Distinct

namespace Fields

variable {α : Type}

/-- A collection stands for its entries where a plain list is asked for. -/
instance : CoeOut (Fields α) (Entries α) := ⟨entries⟩

/-- Nothing yet. -/
def empty : Fields α := ⟨[], List.nodup_nil⟩

/-- The entry under a name. -/
def get? (name : String) (fields : Fields α) : Option α := fields.entries.get? name

/-- Sets the entry under a name. -/
def put (name : String) (entry : α) (fields : Fields α) : Fields α :=
  ⟨fields.entries.put name entry, fields.distinct.put name entry⟩

/-- The entries of a list of pairs, later ones overwriting earlier ones. -/
def ofList (pairs : List (String × α)) : Fields α :=
  pairs.foldl (fun fields pair => fields.put pair.1 pair.2) empty

/-- The names, first given first. -/
def names (fields : Fields α) : List String := fields.entries.names

theorem mem_names {fields : Fields α} {name : String} :
    name ∈ fields.names ↔ ∃ entry, fields.get? name = some entry := Entries.mem_names

theorem get?_put (fields : Fields α) (name key : String) (entry : α) :
    (fields.put name entry).get? key = if key = name then some entry else fields.get? key :=
  fields.entries.get?_put name key entry

end Fields

end TypedTemplate
