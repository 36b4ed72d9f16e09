/-
# `TypedTemplate.Proofs.Render.Calls` — the calls of a rendering

`Fragment.traced` writes what the fragment writes (`Fragment.traced_result`) and keeps the
record of calls that its terms make.  `Template.calls` are the calls of a whole rendering.

Whatever the context is, every call of a template that compiles has the declared number of
arguments and a receiver that is not null.  It is a call as declared exactly if the fields
that receiver and arguments are read from have the shapes of their types; nothing looks at
these before the callback runs, so for a context that is not what its type says a callback
may be handed a value that its declaration excludes.
-/
import TypedTemplate.Proofs.Fragment.Typing
import TypedTemplate.Proofs.Term.Calls

namespace TypedTemplate

namespace Traced

variable {ε α : Type}

/-- What is written with a value, if there is one. -/
def after (x : Traced (Except ε α)) (f : α → Traced (Written ε)) : Traced (Written ε) :=
  match x.result with
  | .ok a => ⟨x.calls ++ (f a).calls, (f a).result⟩
  | .error e => ⟨x.calls, .stopped e⟩

/-- One after the other; the second only if the first has not stopped. -/
def andThen (x y : Traced (Written ε)) : Traced (Written ε) :=
  match x.result.halt with
  | none => ⟨x.calls ++ y.calls, x.result.andThen y.result⟩
  | some _ => x

theorem result_after (x : Traced (Except ε α)) (f : α → Traced (Written ε)) :
    (x.after f).result = .after x.result fun a => (f a).result := by
  obtain ⟨calls, result⟩ := x
  cases result <;> rfl

theorem mem_after {x : Traced (Except ε α)} {f : α → Traced (Written ε)} {c : Call} :
    c ∈ (x.after f).calls ↔ c ∈ x.calls ∨ ∃ a, x.result = .ok a ∧ c ∈ (f a).calls := by
  obtain ⟨calls, result⟩ := x
  cases result <;> simp [after]

theorem result_andThen (x y : Traced (Written ε)) :
    (x.andThen y).result = x.result.andThen y.result := by
  obtain ⟨calls, text, halt⟩ := x
  cases halt <;> rfl

theorem mem_andThen {x y : Traced (Written ε)} {c : Call} (h : c ∈ (x.andThen y).calls) :
    c ∈ x.calls ∨ c ∈ y.calls := by
  obtain ⟨calls, text, halt⟩ := x
  cases halt with
  | none => exact List.mem_append.1 h
  | some e => exact Or.inl h

end Traced

/-- The value of a term that is going to be written, with its calls. -/
def Term.tracedConforming (t : Term) (s : Stack) : Traced (Except Render.Error Value) :=
  (t.traced s).bind fun value => .quiet (t.typing.check s value)

theorem Term.tracedConforming_result (t : Term) (s : Stack) :
    (t.tracedConforming s).result = t.conforming s := by
  rw [Term.tracedConforming, Traced.result_bind, Term.traced_result]
  rfl

namespace Fragment

/-- `writtenItems` with a record of calls. -/
def tracedItems (head : Loop) (body : Stack → Traced (Written Render.Error)) (s : Stack)
    (index : Nat) : List Value → Traced (Written Render.Error)
  | [] => .quiet .nothing
  | item :: items =>
    if item.conforms head.element then
      (body (s.bind head.name item)).andThen (tracedItems head body s (index + 1) items)
    else
      .quiet (.stopped
        ⟨.itemShape index head.name head.element item.kind, s.template, head.list.location⟩)

/-- `writtenLoop` with a record of calls. -/
def tracedLoop (head : Loop) (body : Stack → Traced (Written Render.Error)) (s : Stack) :
    Value → Traced (Written Render.Error)
  | .list items => tracedItems head body s 0 items
  | other => .quiet (.stopped ⟨.notIterable other.kind, s.template, head.list.location⟩)

/-- `writtenIf` with a record of calls. -/
def tracedIf (condition : Term) (body : Stack → Traced (Written Render.Error)) (s : Stack) :
    Value → Traced (Written Render.Error)
  | .bool true => body s
  | .bool false => .quiet .nothing
  | other => .quiet (.stopped ⟨.condition other.kind, s.template, condition.location⟩)

mutual

/-- What a fragment writes, with the calls that are made for it. -/
def traced : Fragment → Stack → Traced (Written Render.Error)
  | .static content, _ => .quiet (.ofText content)
  | .interpolation t escaping, s =>
    (t.tracedConforming s).after fun value => .quiet (.ofText (Text.write escaping "" value.text))
  | .attribute name t boolean escaping, s =>
    (t.tracedConforming s).after fun value =>
      .quiet (writtenAttribute name t boolean escaping s value)
  | .sequence parts, s => tracedAll parts s
  | .loop head body, s => (head.list.traced s).after (tracedLoop head (traced body) s)
  | .conditional condition body, s =>
    (condition.traced s).after (tracedIf condition (traced body) s)
termination_by structural fragment => fragment

/-- What some fragments write one after another, with the calls that are made for them. -/
def tracedAll : List Fragment → Stack → Traced (Written Render.Error)
  | [], _ => .quiet .nothing
  | fragment :: rest, s => (traced fragment s).andThen (tracedAll rest s)
termination_by structural fragments => fragments

end

/-! ## The record changes nothing -/

section

variable {head : Loop} {body : Stack → Traced (Written Render.Error)}
  {w : Stack → Written Render.Error}

theorem tracedItems_result (hbody : ∀ s, (body s).result = w s) (s : Stack) :
    ∀ (items : List Value) (index : Nat),
      (tracedItems head body s index items).result = writtenItems head w s index items
  | [], _ => rfl
  | item :: items, index => by
      unfold tracedItems writtenItems
      split
      · rw [Traced.result_andThen, hbody, tracedItems_result hbody s items]
      · rfl

theorem tracedLoop_result (hbody : ∀ s, (body s).result = w s) (s : Stack) (v : Value) :
    (tracedLoop head body s v).result = writtenLoop head w s v := by
  cases v with
  | list items => exact tracedItems_result hbody s items 0
  | _ => rfl

theorem tracedIf_result (hbody : ∀ s, (body s).result = w s) (condition : Term) (s : Stack)
    (v : Value) : (tracedIf condition body s v).result = writtenIf condition w s v := by
  cases v with
  | bool b =>
      cases b with
      | true => exact hbody s
      | false => rfl
  | _ => rfl

end

mutual

theorem traced_result : ∀ (f : Fragment) (s : Stack), (f.traced s).result = f.written s
  | .static _, _ => rfl
  | .interpolation t _, s => by
      rw [traced, Traced.result_after, Term.tracedConforming_result, written]
      rfl
  | .attribute _ t _ _, s => by
      rw [traced, Traced.result_after, Term.tracedConforming_result, written]
      rfl
  | .sequence parts, s => by
      rw [traced, tracedAll_result parts s, written]
  | .loop head body, s => by
      rw [traced, Traced.result_after, Term.traced_result, written]
      congr 1
      funext v
      exact tracedLoop_result (traced_result body) s v
  | .conditional condition body, s => by
      rw [traced, Traced.result_after, Term.traced_result, written]
      congr 1
      funext v
      exact tracedIf_result (traced_result body) condition s v

theorem tracedAll_result : ∀ (fs : List Fragment) (s : Stack),
    (tracedAll fs s).result = writtenAll fs s
  | [], _ => rfl
  | f :: fs, s => by
      rw [tracedAll, Traced.result_andThen, traced_result f s, tracedAll_result fs s, writtenAll]

end

/-! ## All calls of a fragment -/

theorem mem_tracedItems {head : Loop} {body : Stack → Traced (Written Render.Error)} {s : Stack}
    {c : Call} : ∀ {items : List Value} {index : Nat},
    c ∈ (tracedItems head body s index items).calls →
      ∃ item, item.conforms head.element = true ∧ c ∈ (body (s.bind head.name item)).calls
  | [], _, h => by cases h
  | item :: items, index, h => by
      unfold tracedItems at h
      split at h
      · rename_i hc
        rcases Traced.mem_andThen h with h | h
        · exact ⟨item, hc, h⟩
        · exact mem_tracedItems h
      · cases h

theorem mem_tracedAll {s : Stack} {c : Call} : ∀ {fs : List Fragment},
    c ∈ (tracedAll fs s).calls → ∃ f ∈ fs, c ∈ (f.traced s).calls
  | [], h => by cases h
  | f :: fs, h => by
      rw [tracedAll] at h
      rcases Traced.mem_andThen h with h | h
      · exact ⟨f, List.mem_cons_self, h⟩
      · obtain ⟨g, hg, hc⟩ := mem_tracedAll h
        exact ⟨g, List.mem_cons_of_mem f hg, hc⟩

theorem conforming_calls {scope : Scope} {s : Stack} (hs : s.Shaped scope) {t : Term}
    (ht : t.Typed scope) : ∀ c ∈ (t.tracedConforming s).calls, c.Proper := by
  intro c hc
  rw [Term.tracedConforming, Traced.mem_bind] at hc
  rcases hc with hc | ⟨v, -, hc⟩
  · exact Term.calls_proper hs ht c hc
  · cases hc

/-- The calls of a typed fragment, on a stack where the items of loops have their shapes. -/
theorem calls_proper {scope : Scope} {f : Fragment} (hf : f.Typed scope) :
    ∀ {s : Stack}, s.Shaped scope → ∀ c ∈ (f.traced s).calls, c.Proper := by
  induction hf with
  | static _ =>
      intro s _ c hc
      cases hc
  | interpolation ht _ =>
      intro s hs c hc
      rw [traced, Traced.mem_after] at hc
      rcases hc with hc | ⟨v, -, hc⟩
      · exact conforming_calls hs ht c hc
      · cases hc
  | «attribute» ht _ =>
      intro s hs c hc
      rw [traced, Traced.mem_after] at hc
      rcases hc with hc | ⟨v, -, hc⟩
      · exact conforming_calls hs ht c hc
      · cases hc
  | sequence _ ih =>
      intro s hs c hc
      rw [traced] at hc
      obtain ⟨f, hf, hc⟩ := mem_tracedAll hc
      exact ih f hf hs c hc
  | loop hl _ _ ih =>
      intro s hs c hc
      rw [traced, Traced.mem_after] at hc
      rcases hc with hc | ⟨v, -, hc⟩
      · exact Term.calls_proper hs hl c hc
      · cases v with
        | list items =>
            obtain ⟨item, hitem, hc⟩ := mem_tracedItems hc
            exact ih (hs.bind hitem) c hc
        | _ => cases hc
  | conditional ht _ _ ih =>
      intro s hs c hc
      rw [traced, Traced.mem_after] at hc
      rcases hc with hc | ⟨v, -, hc⟩
      · exact Term.calls_proper hs ht c hc
      · cases v with
        | bool b =>
            cases b with
            | true => exact ih hs c hc
            | false => cases hc
        | _ => cases hc

end Fragment

/-! ## Templates -/

namespace Template

/-- A rendering with the calls that are made for it. -/
def traced (t : Template) (context : Value) : Traced (Written Render.Error) :=
  t.fragment.traced ⟨t.name, context, []⟩

/-- The calls of a rendering, in their order. -/
def calls (t : Template) (context : Value) : List Call := (t.traced context).calls

/-- The rendering is the one that goes without a record. -/
theorem renderTo_eq_traced (t : Template) (out : String) (context : Value) :
    t.renderTo out context = (t.traced context).result.outcome ⟨t.name, context, []⟩ out := by
  rw [traced, Fragment.traced_result]
  exact Fragment.render_eq t.fragment _ out

/-- Every call has as many arguments as parameters and a receiver that is not null; it is as
declared if and only if the fields that its values are read from have the shapes of their types. -/
theorem calls_asDeclared_iff {config : Config} {source : Source} {context : ObjectTy}
    {t : Template} (hc : Template.compile config source context = .ok t) (v : Value) :
    ∀ c ∈ t.calls v, c.args.length = c.method.params.length ∧ c.receiver ≠ .null ∧
      (c.AsDeclared ↔ c.FieldsFit) := by
  intro c hmem
  have hproper := Fragment.calls_proper (Template.compile_typed hc) .empty c hmem
  exact ⟨hproper.count, hproper.receiver, hproper.declared⟩

end Template

/-! ## A value that the declaration excludes -/

namespace Kinds

/-- A method for strings that says what it is given. -/
def kinds : Method := .mk [.string] .string fun receiver args =>
  .ok (.string (receiver.kind.text ++ "(" ++
    String.intercalate "," (args.map fun v => v.kind.text) ++ ")"))

/-- A context with a name, which is to be a string. -/
def page : ObjectTy := ((ObjectTy.empty "T").withField "name" .string).withMethod "kinds" kinds

/-- The name is handed to the method. -/
def source : Source := .ofString "t" "<p>#\x7bkinds(name)\x7d</p>"

/-- A context in which the name is a number. -/
def context : Value := .object [("name", .int 3)]

/-- What each call of a rendering gets, and whether its arguments have the shapes of the
parameters. -/
def record (t : Template) : List (Kind × List Kind × Bool) :=
  (t.calls context).map fun c => (c.receiver.kind, c.args.map Value.kind,
    (c.args.zip c.method.params).all fun (v, τ) => v.conforms τ)

theorem compiles : ∃ t, Template.compile {} source page = .ok t ∧
    record t = [(.object, [.int], false)] := by
  have hok : (Template.compile {} source page).toOption.map record =
      some [(.object, [.int], false)] := by decide +kernel
  cases hc : Template.compile {} source page with
  | error e =>
      rw [hc] at hok
      cases hok
  | ok t =>
      rw [hc] at hok
      exact ⟨t, rfl, Option.some.inj hok⟩

/-- The method for strings is handed a number, and its declaration excludes that. -/
theorem handed_an_int : ∃ t, Template.compile {} source page = .ok t ∧
    ∃ c ∈ t.calls context, ¬ c.AsDeclared := by
  obtain ⟨t, hc, hrecord⟩ := compiles
  have hmem : (Kind.object, [Kind.int], false) ∈ record t := by
    rw [hrecord]
    exact List.mem_cons_self
  obtain ⟨c, hcalls, hentry⟩ := List.mem_map.1 hmem
  refine ⟨t, hc, c, hcalls, ?_⟩
  intro h
  have hall : ((c.args.zip c.method.params).all fun (v, τ) => v.conforms τ) = true := by
    rw [List.all_eq_true]
    intro p hp
    exact (List.forall₂_iff_zip.1 h.args).2 hp
  simp only [Prod.mk.injEq] at hentry
  rw [hentry.2.2] at hall
  cases hall

/-- The theorem at this call. -/
theorem calls_asDeclared_iff_kinds : ∃ t, Template.compile {} source page = .ok t ∧
    ∃ c ∈ t.calls context, c.args.length = c.method.params.length ∧ c.receiver ≠ .null ∧
      (c.AsDeclared ↔ c.FieldsFit) := by
  obtain ⟨t, hc, hrecord⟩ := compiles
  have hmem : (Kind.object, [Kind.int], false) ∈ record t := by
    rw [hrecord]
    exact List.mem_cons_self
  obtain ⟨c, hcalls, -⟩ := List.mem_map.1 hmem
  exact ⟨t, hc, c, hcalls, Template.calls_asDeclared_iff hc context c hcalls⟩

end Kinds

end TypedTemplate
