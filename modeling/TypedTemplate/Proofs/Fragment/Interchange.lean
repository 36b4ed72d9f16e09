/-
# `TypedTemplate.Proofs.Fragment.Interchange` — equal contexts are interchangeable

A host may build the type of its context twice, with the members in another order or with other
callbacks, and the two types are equal.  Every comparison and every lookup of the compiler goes
by name and by equality, so a template compiles under both or under neither: to fragments that
differ in callbacks only, or with one message at one place.  The only thing that shows which of
the types it was is the order in which the help lists what would have been understood.

`Likeness.equal` says that equal types are a correspondence in the sense of
`Proofs.Term.Alike`; the rest is what corresponding faults say.
-/
import TypedTemplate.Proofs.Fragment.Alike
import TypedTemplate.Proofs.Ty.Sharing

namespace TypedTemplate

open TypedTemplate.Expr (Cause)

/-! ## Equal types correspond -/

/-- Types of one form with equal parts. -/
theorem Ty.Equal.matched {σ τ : Ty} (h : σ.Equal τ) : Ty.Matched Ty.Equal Method.Equal σ τ := by
  have hsame := h.same
  cases σ with
  | bool | int | float | string =>
      cases τ <;> simp [Ty.same] at hsame
      exact .scalar rfl
  | list σ =>
      cases τ <;> simp only [Ty.same, Bool.false_eq_true] at hsame
      cases h.left with
      | list hσ =>
          cases h.right with
          | list hτ => exact .list ⟨hσ, hτ, hsame⟩
  | object o =>
      cases τ <;> simp only [Ty.same, Bool.false_eq_true] at hsame
      exact .object h.members.2.1 h.members.2.2

/-- Equal types, and methods of equal signatures. -/
def Likeness.equal : Likeness where
  ty := Ty.Equal
  method := Method.Equal
  more := False
  scalar := by
    intro τ hscalar
    cases τ with
    | bool => exact .refl .bool
    | int => exact .refl .int
    | float => exact .refl .float
    | string => exact .refl .string
    | list _ | object _ => cases hscalar
  list := Ty.Equal.list
  matched := Ty.Equal.matched
  same := Ty.Equal.same_congr
  params := Method.Equal.params
  returns := Method.Equal.returns

theorem Option.Matches.of_rel {α β : Type} {more : Prop} {R : α → β → Prop} {x : Option α}
    {y : Option β} (h : Option.Rel R x y) : Option.Matches more R x y := by
  cases h with
  | some hab => exact hab
  | none => trivial

/-- Equal contexts are corresponding scopes. -/
theorem Likeness.scopes_equal {A B : ObjectTy} (h : (Ty.object A).Equal (.object B)) :
    Likeness.equal.Scopes ⟨A, []⟩ ⟨B, []⟩ where
  bindings := .nil
  field name := .of_rel (h.members.2.1 name)
  method name := .of_rel (h.members.2.2 name)
  names := by
    refine Or.inr ⟨?_, h⟩
    cases h.left with
    | object hf _ _ _ _ =>
        cases h.right with
        | object hf' _ _ _ _ => exact h.members.2.1.names_perm hf hf'

/-! ## What the faults say -/

/-- The same help, or the same names in some other order. -/
inductive HelpAlike : Option String → Option String → Prop
  | same (help : Option String) : HelpAlike help help
  | reordered {names names' : List String} : names.Perm names' →
      HelpAlike (some (Cause.available names)) (some (Cause.available names'))

theorem Ty.Equal.memberNames_perm {o o' : ObjectTy} (h : (Ty.object o).Equal (.object o')) :
    o.memberNames.Perm o'.memberNames := by
  obtain ⟨-, hfields, hmethods⟩ := h.members
  cases h.left with
  | object hf hm _ _ _ =>
      cases h.right with
      | object hf' hm' _ _ _ =>
          exact (hfields.names_perm hf hf').append ((hmethods.names_perm hm hm').map _)

theorem Ty.Equal.availableMembers {o o' : ObjectTy} (h : (Ty.object o).Equal (.object o')) :
    HelpAlike (some (Cause.availableMembers o)) (some (Cause.availableMembers o')) := by
  have hperm := h.memberNames_perm
  have hempty : o.memberNames.isEmpty = o'.memberNames.isEmpty := by
    rw [Bool.eq_iff_iff, List.isEmpty_iff_length_eq_zero, List.isEmpty_iff_length_eq_zero,
      hperm.length_eq]
  rw [Cause.availableMembers, Cause.availableMembers, h.members.1, hempty]
  split
  · exact .same _
  · exact .reordered hperm

/-- The members of two equal types, if these have any. -/
theorem Ty.Equal.help {σ τ : Ty} (h : σ.Equal τ) :
    HelpAlike (σ.object?.map Cause.availableMembers) (τ.object?.map Cause.availableMembers) := by
  have hsame := h.same
  cases σ with
  | object o =>
      cases τ <;> simp only [Ty.same, Bool.false_eq_true] at hsame
      exact h.availableMembers
  | _ =>
      cases τ <;> simp only [Ty.same, Bool.false_eq_true] at hsame
      all_goals exact .same none

namespace Expr.Cause

variable {cause cause' : Cause}

/-- A message names types, and never the order of names. -/
theorem Alike.text_eq (h : cause.Alike Ty.Equal cause') : cause.text = cause'.text := by
  unfold text
  cases h with
  | same => rfl
  | unknownName name _ => rfl
  | unknownRootMethod name h =>
      dsimp only
      rw [h.members.1]
  | unknownField name h | unknownMethod name h | notAList name h | booleanAttributeType name h
  | notScalar name h =>
      dsimp only
      rw [Ty.text_of_same h.same]
  | negationOf h | conditionType h =>
      dsimp only
      rw [Ty.text_of_same h.same]
  | mixedList h h' =>
      dsimp only
      rw [Ty.text_of_same h.same, Ty.text_of_same h'.same]
  | argumentType index method h h' =>
      dsimp only
      rw [Ty.text_of_same h.same, Ty.text_of_same h'.same]

theorem Alike.help (h : cause.Alike Ty.Equal cause') : HelpAlike cause.help cause'.help := by
  cases h with
  | same => exact .same _
  | unknownName name hnames => exact .reordered hnames
  | unknownRootMethod name h => exact h.availableMembers
  | unknownField name h => exact h.help
  | unknownMethod name h => exact h.help
  | _ => exact .same none

end Expr.Cause

/-- Two errors of one kind. -/
inductive CompileError.Alike : CompileError → CompileError → Prop
  | same (e : CompileError) : Alike e e
  | expression {f f' : ExprFault} : f.cause.Alike Ty.Equal f'.cause →
      Alike (.expression f) (.expression f')

/-- Two reports of one kind that say the same of the same place, the order of the help apart. -/
structure Diagnostic.Alike (d d' : Diagnostic) : Prop where
  kind : d.error.Alike d'.error
  span : d.error.span = d'.error.span
  message : d.message = d'.message
  template : d.template = d'.template
  location : d.location = d'.location
  help : HelpAlike d.error.help d'.error.help

theorem Diagnostic.Alike.refl (d : Diagnostic) : d.Alike d := ⟨.same _, rfl, rfl, rfl, rfl, .same _⟩

/-- Corresponding errors are reported alike. -/
theorem Likeness.diagnose_alike {source : Source} {e e' : CompileError}
    (h : Likeness.equal.Errors e e') : (source.diagnose e).Alike (source.diagnose e') := by
  cases h with
  | more _ _ hmore => exact hmore.elim
  | same => exact .refl _
  | @expression f f' hfaults =>
      obtain ⟨hspan, hcause⟩ := hfaults.resolve_left id
      have hlocation : source.location f.span.start = source.location f'.span.start := by rw [hspan]
      refine ⟨.expression hcause, hspan, ?_, rfl, hlocation, hcause.help⟩
      show f.cause.text ++ _ ++ _ ++ _ ++ Location.text (source.location f.span.start) ++ _ = _
      rw [hcause.text_eq, hlocation]
      rfl

/-- Under equal contexts a template compiles alike or is refused alike. -/
theorem Template.compile_alike {A B : ObjectTy} (h : (Ty.object A).Equal (.object B))
    (config : Config) (source : Source) :
    Except.Matches False Likeness.equal.Templates Diagnostic.Alike
      (Template.compile config source A) (Template.compile config source B) := by
  have hcheck := Likeness.check (Likeness.scopes_equal h) config source
  rw [Template.compile, Template.compile]
  revert hcheck
  generalize Template.check config source A = x, Template.check config source B = y
  intro hcheck
  cases x with
  | ok t =>
      cases y with
      | ok t' => exact hcheck
      | error _ => exact hcheck.elim
  | error e =>
      cases y with
      | ok _ => exact hcheck
      | error e' => exact Likeness.diagnose_alike hcheck

/-! ## Interchangeable contexts -/

/-- Equality of types, also where it stops at a descriptor that is held in both places, is an
equivalence that goes by names, and neither the order of members nor the callbacks count.  Templates
compile alike under equal contexts, to fragments that differ in callbacks only, or are refused
alike, with the help in some other order; and equal types have the same values. -/
theorem Template.compile_interchangeable :
    (Equivalence fun σ τ : {τ : Ty // τ.Proper} => σ.1.same τ.1 = true) ∧
    (∀ (sharing : Sharing) (place : List Nat) {σ : Ty}, σ.Proper → ∀ τ,
      σ.sameSharing sharing place τ = σ.same τ) ∧
    (∀ {o o' : ObjectTy}, (Ty.object o).Proper → (Ty.object o').Proper →
      ((Ty.object o).same (.object o') = true ↔ o.name = o'.name ∧
        o.fields.Agree (fun σ τ => σ.same τ = true) o'.fields ∧
        o.methods.Agree (fun m n => List.Forall₂ (fun σ τ => σ.same τ = true) m.params n.params ∧
          m.returns.same n.returns = true) o'.methods) ∧
      (o.name = o'.name → o.fields.Perm o'.fields →
        (o.methods.map fun d => (d.1, d.2.params, d.2.returns)).Perm
          (o'.methods.map fun d => (d.1, d.2.params, d.2.returns)) →
        (Ty.object o).same (.object o') = true)) ∧
    (∀ {A B : ObjectTy}, (Ty.object A).Proper → (Ty.object B).Proper →
      (Ty.object A).same (.object B) = true → ∀ (config : Config) (source : Source),
        Except.Matches False
          (fun t t' => t.source = t'.source ∧ t.fragment.Alike Ty.Equal Method.Equal t'.fragment)
          Diagnostic.Alike (Template.compile config source A) (Template.compile config source B)) ∧
    ∀ {σ τ : Ty}, σ.same τ = true → ∀ v : Value, v.conforms σ = v.conforms τ := by
  refine ⟨⟨fun σ => Ty.same_refl σ.2, fun {σ τ} h => Ty.same_symm σ.2 τ.2 h,
    fun {σ τ ρ} h h' => Ty.same_trans σ.2 τ.2 ρ.2 h h'⟩, ?_, ?_, ?_, ?_⟩
  · intro sharing place σ hσ τ
    exact Ty.sameSharing_eq hσ place τ
  · intro o o' h h'
    simp only [← Method.same_iff]
    exact ⟨Ty.same_object_iff h h', Ty.same_of_perm h h'⟩
  · intro A B hA hB hAB config source
    have halike := Template.compile_alike ⟨hA, hB, hAB⟩ config source
    exact halike.imp (fun t t' ht => ⟨ht.source, ht.fragment⟩) fun _ _ => id
  · intro σ τ h v
    exact Value.conforms_congr σ h v

/-! ## A directory -/

namespace Directory

/-- A person, the age first. -/
def person : ObjectTy := ((ObjectTy.empty "Person").withField "age" .int).withField "name" .string

/-- A person, the name first. -/
def named : ObjectTy := ((ObjectTy.empty "Person").withField "name" .string).withField "age" .int

/-- A method that takes a person and answers as it is told. -/
def greet (person : ObjectTy) (answer : Except String Value) : Method :=
  .mk [.object person] .string fun _ _ => answer

/-- Some people, and a method that greets one of them. -/
def page : ObjectTy :=
  (((ObjectTy.empty "Page").withField "title" .string).withField "people"
    (.list (.object person))).withMethod "greet" (greet person (.ok (.string "Hello")))

/-- The same built in another order, with a method that fails. -/
def rebuilt : ObjectTy :=
  (((ObjectTy.empty "Page").withMethod "greet" (greet named (.error "nobody"))).withField "people"
    (.list (.object named))).withField "title" .string

/-- A template that hands its people on. -/
def listed : Source :=
  .ofString "directory" "<p c:for='p:people'>#\x7bgreet(p)\x7d is #\x7bp.age\x7d</p>"

/-- A template with a misspelt name. -/
def misspelt : Source := .ofString "directory" "<p>#\x7btitel\x7d</p>"

theorem person_proper : (Ty.object person).Proper :=
  ((Ty.Proper.empty _).withField .int).withField .string

theorem named_proper : (Ty.object named).Proper :=
  ((Ty.Proper.empty _).withField .string).withField .int

theorem page_proper : (Ty.object page).Proper := by
  refine (((Ty.Proper.empty _).withField .string).withField (.list person_proper)).withMethod ?_ ?_
  · intro τ hτ
    cases List.mem_singleton.1 hτ
    exact person_proper
  · exact .string

theorem rebuilt_proper : (Ty.object rebuilt).Proper := by
  refine (((Ty.Proper.empty _).withMethod ?_ ?_).withField (.list named_proper)).withField .string
  · intro τ hτ
    cases List.mem_singleton.1 hτ
    exact named_proper
  · exact .string

/-- The help that comes with a refusal. -/
def help? : Except Diagnostic Template → Option String
  | .ok _ => none
  | .error d => d.error.help

/-- The theorem at the two pages: one template compiles under both, the other one is refused under
both, with one message and the help in two orders. -/
theorem compile_interchangeable_directory :
    (Ty.object person).same (.object named) = true ∧
    (Ty.object page).same (.object rebuilt) = true ∧
    (Ty.object page).sameSharing ⟨fun _ _ _ => false, by simp⟩ [] (.object rebuilt) = true ∧
    (∀ v : Value, v.conforms (.list (.object page)) = v.conforms (.list (.object rebuilt))) ∧
    (∃ t t', Template.compile {} listed page = .ok t ∧ Template.compile {} listed rebuilt = .ok t' ∧
      t.fragment.Alike Ty.Equal Method.Equal t'.fragment) ∧
    ∃ d d', Template.compile {} misspelt page = .error d ∧
      Template.compile {} misspelt rebuilt = .error d' ∧ d.message = d'.message ∧
      d.error.help = some "available: title, people" ∧
      d'.error.help = some "available: people, title" := by
  obtain ⟨-, hsharing, hcounts, hcompile, hconforms⟩ := Template.compile_interchangeable
  have hperson : (Ty.object person).same (.object named) = true :=
    (hcounts person_proper named_proper).2 rfl (List.Perm.swap _ _ _) (List.Perm.refl _)
  have hequal : (Ty.object page).same (.object rebuilt) = true := by decide +kernel
  have hlisted := hcompile page_proper rebuilt_proper hequal {} listed
  have hmisspelt := hcompile page_proper rebuilt_proper hequal {} misspelt
  refine ⟨hperson, hequal, ?_, hconforms hequal, ?_, ?_⟩
  · rw [hsharing _ _ page_proper]
    exact hequal
  · have hsucceeds : (Template.compile {} listed page).Succeeds := by decide +kernel
    obtain ⟨t, ht⟩ := hsucceeds
    obtain ⟨t', ht', -, hfragment⟩ := hlisted.of_ok ht
    exact ⟨t, t', ht, ht', hfragment⟩
  · have hhelp : help? (Template.compile {} misspelt page) = some "available: title, people" ∧
        help? (Template.compile {} misspelt rebuilt) = some "available: people, title" := by
      decide +kernel
    revert hmisspelt hhelp
    cases Template.compile {} misspelt page with
    | ok t =>
        intro _ hhelp
        cases hhelp.1
    | error d =>
        cases Template.compile {} misspelt rebuilt with
        | ok t' =>
            intro _ hhelp
            cases hhelp.2
        | error d' =>
            intro halike hhelp
            exact ⟨d, d', rfl, rfl, halike.message, hhelp⟩

end Directory

end TypedTemplate
