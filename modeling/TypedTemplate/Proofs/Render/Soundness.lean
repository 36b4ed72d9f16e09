/-
# `TypedTemplate.Proofs.Render.Soundness` — a template that compiles cannot go wrong

The theorem on terms carried over to fragments and templates: rendered with a context of
its type, a template that compiles writes its output or stops for an excusable cause.  The
scope of a typed fragment grows with the loops around it, and so does the stack; an item
of a list of the right type has the item's type, so the shape that loops ask for is never
missing.
-/
import TypedTemplate.Proofs.Fragment.Typing
import TypedTemplate.Proofs.Term.Soundness

namespace TypedTemplate

namespace Fragment

variable {context : ObjectTy}

/-- The failures of a fragment are excusable. -/
abbrev Excused (context : ObjectTy) : Written Render.Error → Prop :=
  Written.Halts fun e => e.cause.Excusable context

theorem conforming_sound {s : Stack} {t : Term} (h : Sound context t.type (t.eval s)) :
    Sound context t.type (t.conforming s) :=
  h.bind fun _ hv => Sound.check hv

theorem writtenAttribute_excused {name : String} {t : Term} {boolean : Bool}
    {escaping : Text.Escaping} {s : Stack} {v : Value}
    (hty : Compiler.AttributeTy boolean t.type) (hv : v.HasType t.type) :
    Excused context (writtenAttribute name t boolean escaping s v) := by
  rw [writtenAttribute]
  cases boolean with
  | false => cases v <;> exact .ofText _
  | true =>
      rw [show t.type = .bool from hty] at hv
      rcases hv.bool_inv with rfl | ⟨b, rfl⟩
      · exact .ofText _
      · cases b <;> exact .ofText _

theorem writtenLoop_excused {head : Loop} {body : Stack → Written Render.Error} {s : Stack}
    (hbody : ∀ v : Value, v.HasType head.element → Excused context (body (s.bind head.name v)))
    {v : Value} (hv : v.HasType (.list head.element)) :
    Excused context (writtenLoop head body s v) := by
  rcases hv.list_inv with rfl | ⟨items, rfl, hitems⟩
  · exact .stopped .notIterableNull
  · clear hv
    rw [writtenLoop]
    generalize 0 = index
    induction items generalizing index with
    | nil => exact .nothing
    | cons item items ih =>
        have hitem := hitems item List.mem_cons_self
        simp only [writtenItems, hitem.conforms, if_true]
        refine (hbody item hitem).andThen (ih (fun w hw => ?_) (index + 1))
        exact hitems w (List.mem_cons_of_mem _ hw)

theorem writtenIf_excused {condition : Term} {body : Stack → Written Render.Error} {s : Stack}
    (hbody : Excused context (body s)) {v : Value} (hv : v.HasType .bool) :
    Excused context (writtenIf condition body s v) := by
  rcases hv.bool_inv with rfl | ⟨b, rfl⟩
  · exact .stopped .conditionNull
  · cases b with
    | true => exact hbody
    | false => exact .nothing

theorem writtenAll_excused {s : Stack} {fs : List Fragment}
    (h : ∀ f ∈ fs, Excused context (f.written s)) : Excused context (writtenAll fs s) := by
  induction fs with
  | nil => exact .nothing
  | cons f fs ih =>
      exact (h f List.mem_cons_self).andThen (ih fun g hg => h g (List.mem_cons_of_mem _ hg))

/-- A typed fragment on a stack of its types fails only excusably. -/
theorem written_excused (hd : context.DistinctFields) (hk : context.CallbacksKeep) {scope : Scope}
    {f : Fragment} (hf : f.Typed scope) : scope.root = context → scope.Within →
      ∀ {s : Stack}, s.HasTypes scope → Excused context (f.written s) := by
  induction hf with
  | static content => intro _ _ s _; exact .ofText content
  | interpolation ht _ =>
      intro hroot hw s hs
      subst hroot
      exact .after (conforming_sound (Term.eval_sound hd hk hw hs ht)) fun v _ => .ofText _
  | «attribute» ht hty =>
      intro hroot hw s hs
      subst hroot
      exact .after (conforming_sound (Term.eval_sound hd hk hw hs ht))
        fun v hv => writtenAttribute_excused hty hv
  | sequence _ ih =>
      intro hroot hw s hs
      exact writtenAll_excused fun f hf => ih f hf hroot hw hs
  | loop hl hty _ ih =>
      intro hroot hw s hs
      subst hroot
      have hlist := Term.eval_sound hd hk hw hs hl
      have hwithin := hl.within hw
      rw [hty] at hlist hwithin
      refine .after hlist fun v hv => writtenLoop_excused (fun w hwt => ?_) hv
      exact ih rfl (hw.bind (hwithin.of_reaches (.item .here))) (hs.bind hwt)
  | conditional hc hty _ ih =>
      intro hroot hw s hs
      subst hroot
      have hcond := Term.eval_sound hd hk hw hs hc
      rw [hty] at hcond
      exact .after hcond fun v hv => writtenIf_excused (ih rfl hw hs) hv

end Fragment

/-! ## Templates -/

/-- The result of a rendering from an empty output, by what the fragment writes. -/
theorem Template.render_eq (t : Template) (context : Value) :
    t.render context =
      match (t.fragment.written ⟨t.name, context, []⟩).halt with
      | none => .ok (t.fragment.written ⟨t.name, context, []⟩).text
      | some e => .error e := by
  simp only [Template.render, Template.renderTo, Fragment.render_eq, Written.outcome]
  cases (t.fragment.written ⟨t.name, context, []⟩).halt with
  | none => simp
  | some e => rfl

/-- Rendered with a context of its type, a template that compiles either writes its whole output
or stops at a null or because a callback failed. -/
theorem Template.render_sound {config : Config} {source : Source} {context : ObjectTy}
    {t : Template} (hc : Template.compile config source context = .ok t)
    (hd : context.DistinctFields) (hk : context.CallbacksKeep) {v : Value}
    (hv : v.HasType (.object context)) :
    (∃ out, t.render v = .ok out) ∨ ∃ e, t.render v = .error e ∧ e.cause.Excusable context := by
  have hs : Stack.HasTypes ⟨context, []⟩ ⟨t.name, v, []⟩ := ⟨hv, .empty⟩
  have hexcused := Fragment.written_excused hd hk (Template.compile_typed hc) rfl .empty hs
  rw [Template.render_eq]
  cases hhalt : (t.fragment.written ⟨t.name, v, []⟩).halt with
  | none => exact Or.inl ⟨_, rfl⟩
  | some e => exact Or.inr ⟨e, rfl, hexcused e hhalt⟩

/-! ## A shop -/

namespace Shop

/-- What a shop sells. -/
def product : ObjectTy :=
  ((ObjectTy.empty "Product").withField "name" .string).withField "sale" .bool

/-- A method that greets nobody but a string. -/
def greet : Method :=
  .mk [.string] .string fun
    | _, [.string name] => .ok (.string ("Hello " ++ name))
    | _, _ => .error "nobody to greet"

/-- What a template of the shop is given. -/
def page : ObjectTy :=
  (((ObjectTy.empty "Page").withField "owner" .string).withField "products"
    (.list (.object product))).withMethod "greet" greet

/-- A template with a loop, a condition, an attribute, a call and fields of a loop variable. -/
def source : Source :=
  .ofString "shop" "<p>#\x7bgreet(owner)\x7d</p><b c:for='p:products' c:if='!p.sale' c:id='p.name'>#\x7bp.name\x7d</b>"

/-- A shop with one product. -/
def context : Value :=
  .object [("owner", .string "Ann"),
    ("products", .list [.object [("name", .string "tea"), ("sale", .bool false)]])]

theorem page_fields : page.fields = [("owner", .string), ("products", .list (.object product))] :=
  rfl

theorem product_fields : product.fields = [("name", .string), ("sale", .bool)] := rfl

theorem page_methods : page.methods = [("greet", greet)] := rfl

/-- From the page an expression gets to the products and to scalars. -/
theorem page_reaches {τ : Ty} (h : (Ty.object page).Reaches τ) :
    τ = .object page ∨ τ = .list (.object product) ∨ τ = .object product ∨ τ.isScalar = true := by
  induction h with
  | here => exact Or.inl rfl
  | item _ ih =>
      rcases ih with h | h | h | h
      · cases h
      · cases h
        exact Or.inr (Or.inr (Or.inl rfl))
      · cases h
      · simp [Ty.isScalar] at h
  | field _ hf ih =>
      have hmem := Entries.mem_of_get? hf
      rcases ih with h | h | h | h
      · cases h
        rw [page_fields] at hmem
        simp only [List.mem_cons, Prod.mk.injEq, List.not_mem_nil, or_false] at hmem
        rcases hmem with ⟨-, rfl⟩ | ⟨-, rfl⟩
        · exact Or.inr (Or.inr (Or.inr rfl))
        · exact Or.inr (Or.inl rfl)
      · cases h
      · cases h
        rw [product_fields] at hmem
        simp only [List.mem_cons, Prod.mk.injEq, List.not_mem_nil, or_false] at hmem
        rcases hmem with ⟨-, rfl⟩ | ⟨-, rfl⟩ <;> exact Or.inr (Or.inr (Or.inr rfl))
      · simp [Ty.isScalar] at h
  | result _ hm ih =>
      have hmem := Entries.mem_of_get? hm
      rcases ih with h | h | h | h
      · cases h
        rw [page_methods, List.mem_singleton, Prod.mk.injEq] at hmem
        obtain ⟨-, rfl⟩ := hmem
        exact Or.inr (Or.inr (Or.inr rfl))
      · cases h
      · cases h
        cases hmem
      · simp [Ty.isScalar] at h

theorem page_distinctFields : page.DistinctFields := by
  intro o ho
  rcases page_reaches ho with h | h | h | h
  · cases h
    have hempty := ObjectTy.empty_distinct "Page"
    exact ObjectTy.withField_distinct (o := (ObjectTy.empty "Page").withField "owner" .string)
      (ObjectTy.withField_distinct hempty "owner" .string) "products" (.list (.object product))
  · cases h
  · cases h
    have hempty := ObjectTy.empty_distinct "Product"
    have hname := ObjectTy.withField_distinct hempty "name" .string
    exact ObjectTy.withField_distinct hname "sale" .bool
  · simp [Ty.isScalar] at h

theorem greet_keeps (o : ObjectTy) : greet.Keeps o := by
  intro receiver args v _ _ _ hcall
  simp only [greet, Method.call] at hcall
  split at hcall
  · cases hcall
    exact .string _
  · cases hcall

theorem page_callbacksKeep : page.CallbacksKeep := by
  intro o name m ho hm
  have hmem := Entries.mem_of_get? hm
  rcases page_reaches ho with h | h | h | h
  · cases h
    rw [page_methods, List.mem_singleton, Prod.mk.injEq] at hmem
    obtain ⟨-, rfl⟩ := hmem
    exact greet_keeps page
  · cases h
  · cases h
    cases hmem
  · simp [Ty.isScalar] at h

theorem context_hasType : context.HasType (.object page) := by
  refine .of_declared ?_
  rw [page_fields]
  simp only [List.forall_mem_cons, List.not_mem_nil, false_implies, implies_true, and_true]
  refine ⟨⟨_, rfl, .string "Ann"⟩, ⟨_, rfl, .list ?_⟩⟩
  rw [List.forall_mem_singleton]
  refine .of_declared ?_
  rw [product_fields]
  simp only [List.forall_mem_cons, List.not_mem_nil, false_implies, implies_true, and_true]
  exact ⟨⟨_, rfl, .string "tea"⟩, ⟨_, rfl, .bool false⟩⟩

/-- The shop's template compiles, and the theorem speaks of its rendering. -/
theorem render_sound_shop : ∃ t, Template.compile {} source page = .ok t ∧ page.DistinctFields ∧
    page.CallbacksKeep ∧ context.HasType (.object page) ∧
      ((∃ out, t.render context = .ok out) ∨
        ∃ e, t.render context = .error e ∧ e.cause.Excusable page) := by
  have hok : (Template.compile {} source page).toBool = true := by decide +kernel
  cases hc : Template.compile {} source page with
  | error e =>
      rw [hc] at hok
      cases hok
  | ok t =>
      exact ⟨t, rfl, page_distinctFields, page_callbacksKeep, context_hasType,
        Template.render_sound hc page_distinctFields page_callbacksKeep context_hasType⟩

end Shop

end TypedTemplate
