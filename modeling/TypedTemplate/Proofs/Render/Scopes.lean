/-
# `TypedTemplate.Proofs.Render.Scopes` — the stack of a rendering fits the scope

While a template that compiles is rendered, the scopes on the stack are those that the
fragment being rendered was compiled in: the same names in the same order, each with a value
of the shape of its type.  Nothing is assumed of the context or of the callbacks for that:
a loop looks at the shape of each item before it binds it, and the stack is handed back as
it was found.  (`Visit.Fits`, `Template.render_fits`)

Two kinds of failure are excluded by it.  A name that was found at compile time is bound,
and the value of a boolean attribute, which is compared with its type before it is used,
is a truth value or null (`Render.Cause.Possible`).  And since the values that are written
are compared with their types as well, no list and no object is ever written.
-/
import TypedTemplate.Proofs.Fragment.Typing
import TypedTemplate.Proofs.Render.Record
import TypedTemplate.Proofs.Term.Calls
import TypedTemplate.Proofs.Term.Soundness

namespace TypedTemplate

/-! ## Failures that do not occur -/

/-- The cause is not one of the two that compiling excludes. -/
def Render.Cause.Possible : Render.Cause → Prop
  | .unbound _ => False
  | .booleanAttribute _ _ => False
  | _ => True

/-- Any value, or a failure that can occur. -/
abbrev Term.Evaluates : Except Render.Error Value → Prop :=
  Except.Obeys (fun _ => True) (fun e => e.cause.Possible)

namespace Term.Evaluates

variable {s : Stack} {location : Location}

theorem read (v : Value) (field : String) : Evaluates (v.read s location field) := by
  cases v with
  | object fields =>
      simp only [Value.read]
      cases Entries.get? field fields <;> exact trivial
  | _ => exact trivial

theorem check (t : Typing) (v : Value) : Evaluates (t.check s v) := by
  rw [Typing.check]
  split <;> exact trivial

theorem invoke (m : Method) (t : Typing) (name : String) (receiver : Value) (args : List Value) :
    Evaluates (m.invoke s t name receiver args) := by
  rw [Method.invoke]
  cases m.call receiver args with
  | ok v => exact check t v
  | error reason => exact trivial

theorem builtin (b : Builtin) (τ : Ty) (v : Value) : Evaluates (b.eval s location τ v) := by
  unfold Builtin.eval
  split <;> exact trivial

theorem negate (v : Value) : Evaluates (v.negate s location) := by
  cases v <;> exact trivial

theorem all {ts : List Term} (h : ∀ t ∈ ts, Evaluates (t.eval s)) :
    (evalAll s ts).Obeys (fun _ => True) (fun e => e.cause.Possible) := by
  have hall := evalAll_obeys (P := fun _ _ => True) h
  cases hvalues : evalAll s ts with
  | ok vs => exact trivial
  | error e =>
      rw [hvalues] at hall
      exact hall

end Term.Evaluates

section

variable {R : Value → Ty → Prop} {scope : Scope} {s : Stack}

/-- Where the stack has the names of the scope, a typed term does not miss one. -/
theorem Term.Typed.evaluates (hs : s.Binds R scope) {t : Term} (ht : t.Typed scope) :
    Term.Evaluates (t.eval s) := by
  induction ht with
  | constant literal => exact trivial
  | listing _ _ ih =>
      simp only [Term.eval]
      exact (Term.Evaluates.all ih).bind fun _ _ => trivial
  | loopName h =>
      obtain ⟨v, hv, -⟩ := hs.lookup? h
      simp only [Term.eval, hv]
      exact trivial
  | rootField _ _ => exact Term.Evaluates.read _ _
  | fieldOf _ _ _ ih =>
      simp only [Term.eval]
      exact ih.bind fun v _ => Term.Evaluates.read v _
  | rootCall _ _ _ ih =>
      simp only [Term.eval]
      split
      · exact trivial
      · exact (Term.Evaluates.all ih).bind fun _ _ => Term.Evaluates.invoke _ _ _ _ _
  | methodOf _ _ _ _ _ ihb ih =>
      simp only [Term.eval]
      refine ihb.bind fun receiver _ => ?_
      split
      · exact trivial
      · exact (Term.Evaluates.all ih).bind fun _ _ => Term.Evaluates.invoke _ _ _ _ _
  | builtinOf _ _ ih =>
      simp only [Term.eval]
      exact ih.bind fun v _ => Term.Evaluates.builtin _ _ v
  | negation _ _ ih =>
      simp only [Term.eval]
      exact ih.bind fun v _ => Term.Evaluates.negate v

/-- A value that is going to be written has the shape of its type. -/
theorem Term.Typed.conforming_evaluates (hs : s.Binds R scope) {t : Term} (ht : t.Typed scope) :
    (t.conforming s).Obeys (fun v => v.conforms t.type = true) (fun e => e.cause.Possible) := by
  refine (ht.evaluates hs).bind fun v _ => ?_
  rw [Typing.check]
  split
  · assumption
  · exact trivial

end

namespace Fragment

/-- The failures of a fragment are possible ones. -/
abbrev HaltsPossibly : Written Render.Error → Prop := Written.Halts fun e => e.cause.Possible

theorem writtenAttribute_possible {name : String} {t : Term} {boolean : Bool}
    {escaping : Text.Escaping} {s : Stack} {v : Value}
    (htype : Compiler.AttributeTy boolean t.type) (hv : v.conforms t.type = true) :
    HaltsPossibly (writtenAttribute name t boolean escaping s v) := by
  rw [writtenAttribute]
  cases boolean with
  | false => cases v <;> exact .ofText _
  | true =>
      rw [show t.type = .bool from htype] at hv
      cases v with
      | null => exact .ofText _
      | bool b => cases b <;> exact .ofText _
      | _ => simp [Value.conforms] at hv

theorem writtenItems_possible {head : Loop} {body : Stack → Written Render.Error} {s : Stack}
    (hbody : ∀ item : Value, item.conforms head.element = true →
      HaltsPossibly (body (s.bind head.name item))) :
    ∀ (items : List Value) (index : Nat), HaltsPossibly (writtenItems head body s index items)
  | [], _ => .nothing
  | item :: items, index => by
      rw [writtenItems]
      split
      · rename_i hitem
        exact (hbody item hitem).andThen (writtenItems_possible hbody items (index + 1))
      · exact .stopped trivial

/-- Rendering a typed fragment, on a stack where the items of loops have their shapes. -/
theorem written_possible {scope : Scope} {f : Fragment} (hf : f.Typed scope) :
    ∀ {s : Stack}, s.Shaped scope → HaltsPossibly (f.written s) := by
  induction hf with
  | static content =>
      intro s _
      exact .ofText content
  | interpolation ht _ =>
      intro s hs
      exact .after (ht.conforming_evaluates hs) fun v _ => .ofText _
  | «attribute» ht htype =>
      intro s hs
      exact .after (ht.conforming_evaluates hs) fun v hv => writtenAttribute_possible htype hv
  | @sequence _ parts _ ih =>
      intro s hs
      rw [written]
      clear * - ih hs
      induction parts with
      | nil => exact .nothing
      | cons f fs ihfs =>
          refine (ih f List.mem_cons_self hs).andThen (ihfs fun g hg => ?_)
          exact ih g (List.mem_cons_of_mem _ hg)
  | loop ht _ _ ih =>
      intro s hs
      refine .after (ht.evaluates hs) fun v _ => ?_
      cases v with
      | list items =>
          exact writtenItems_possible (fun item hitem => ih (hs.bind hitem)) items 0
      | _ => exact .stopped trivial
  | conditional ht _ _ ih =>
      intro s hs
      refine .after (ht.evaluates hs) fun v _ => ?_
      cases v with
      | bool b =>
          cases b with
          | true => exact ih hs
          | false => exact .nothing
      | _ => exact .stopped trivial

end Fragment

/-! ## Every visit -/

/-- The value is of the scalar type. -/
def Value.IsScalar : Ty → Value → Prop
  | .bool, .bool _ => True
  | .int, .int _ => True
  | .float, .float _ => True
  | .string, .string _ => True
  | _, _ => False

theorem Value.isScalar_of_conforms {v : Value} {τ : Ty} (hτ : τ.isScalar = true)
    (hv : v.conforms τ = true) : v = .null ∨ v.IsScalar τ := by
  cases τ <;> cases v <;> simp_all [Value.conforms, Value.IsScalar, Ty.isScalar]

/-- A fragment is rendered on a stack of the scope that it was compiled in. -/
structure Visit.Fits (c : Compiler) (outer : Scope) (nodes : List Markup.Node) (root : Value)
    (visit : Visit) : Prop where
  /-- The fragment was compiled in the scope of the visit. -/
  compiled : visit.fragment.Compiled c outer nodes visit.scope
  /-- The stack has the names of this scope, in the same order. -/
  names : visit.stack.scopes.map Prod.fst = visit.scope.bindings.map Prod.fst
  /-- The value of each name has the shape of the loop's items. -/
  items : List.Forall₂ (fun b d => b.2.conforms d.2 = true) visit.stack.scopes visit.scope.bindings
  root : visit.stack.root = root
  /-- A value that the fragment writes is null or of its term's type, which is a scalar one. -/
  values : ∀ t value escaping, .value t value escaping ∈ visit.chunks →
    value = .null ∨ value.IsScalar t.type

theorem Term.conforms_of_conforming {t : Term} {s : Stack} {v : Value}
    (h : t.conforming s = .ok v) : v.conforms t.type = true := by
  obtain ⟨w, -, hcheck⟩ := Except.bind_eq_ok.1 h
  exact Typing.conforms_of_check hcheck

namespace Fragment

theorem mem_attributeChunks {name : String} {t t' : Term} {boolean : Bool}
    {escaping escaping' : Text.Escaping} {v value : Value}
    (h : .value t' value escaping' ∈ attributeChunks name t boolean escaping v) :
    boolean = false ∧ t' = t ∧ value = v ∧ escaping' = escaping := by
  cases boolean with
  | true =>
      cases v with
      | bool b => cases b <;> simp [attributeChunks] at h
      | _ => simp [attributeChunks] at h
  | false =>
      cases v with
      | null => simp [attributeChunks] at h
      | _ => simpa [attributeChunks] using h

/-- What a typed fragment writes of values. -/
theorem Typed.chunks_scalar {scope : Scope} {f : Fragment} (hf : f.Typed scope) {s : Stack}
    {t : Term} {value : Value} {escaping : Text.Escaping}
    (h : .value t value escaping ∈ f.chunks s) : value = .null ∨ value.IsScalar t.type := by
  cases hf with
  | static content => simp [chunks] at h
  | @interpolation _ t' escaping' _ hs =>
      rw [chunks] at h
      cases hv : t'.conforming s with
      | error e => simp [hv] at h
      | ok v =>
          simp only [hv, List.mem_singleton, Chunk.value.injEq] at h
          obtain ⟨rfl, rfl, rfl⟩ := h
          exact Value.isScalar_of_conforms hs (Term.conforms_of_conforming hv)
  | @«attribute» _ name t' boolean escaping' _ htype =>
      rw [chunks] at h
      cases hv : t'.conforming s with
      | error e => simp [hv] at h
      | ok v =>
          simp only [hv] at h
          obtain ⟨rfl, rfl, rfl, rfl⟩ := mem_attributeChunks h
          exact Value.isScalar_of_conforms htype (Term.conforms_of_conforming hv)
  | sequence _ => simp [chunks] at h
  | loop _ _ _ => simp [chunks] at h
  | conditional _ _ _ => simp [chunks] at h

theorem mem_recordAll {scope : Scope} {s : Stack} {visit : Visit} :
    ∀ {fs : List Fragment} {out : String}, visit ∈ (recordAll fs scope s out).visits →
      ∃ f ∈ fs, ∃ o, visit ∈ (f.record scope s o).visits
  | [], out, h => by cases h
  | f :: fs, out, h => by
      rw [recordAll] at h
      rcases Recorded.mem_andThen h with h | ⟨-, h⟩
      · exact ⟨f, List.mem_cons_self, out, h⟩
      · rw [record_stack] at h
        obtain ⟨g, hg, o, h⟩ := mem_recordAll h
        exact ⟨g, List.mem_cons_of_mem f hg, o, h⟩

/-- The body of a loop is rendered with the loop's scope on top, set to an item of its type. -/
theorem mem_recordItems {head : Loop} {body : Fragment} {scope : Scope} {s : Stack}
    {visit : Visit} : ∀ {items : List Value} {index : Nat} {last : Value} {out : String},
    visit ∈ (recordItems head (body.record scope) index items (s.bind head.name last) out).visits →
      ∃ item : Value, item.conforms head.element = true ∧
        ∃ o, visit ∈ (body.record scope (s.bind head.name item) o).visits
  | [], index, last, out, h => by cases h
  | item :: items, index, last, out, h => by
      rw [recordItems] at h
      split at h
      · rename_i hitem
        rcases Recorded.mem_andThen h with h | ⟨-, h⟩
        · exact ⟨item, hitem, out, h⟩
        · rw [record_stack] at h
          exact mem_recordItems h
      · cases h

/-- Every fragment that is rendered is rendered on a stack of its scope. -/
theorem Compiled.visits_fit {c : Compiler} {outer scope : Scope} {nodes : List Markup.Node}
    {f : Fragment} (hf : f.Compiled c outer nodes scope) : ∀ {s : Stack} {out : String},
    s.Shaped scope → ∀ visit ∈ (f.record scope s out).visits, visit.Fits c outer nodes s.root := by
  have hvisit {scope : Scope} {f : Fragment} (hf : f.Compiled c outer nodes scope) {s : Stack}
      (hs : s.Shaped scope) : Visit.Fits c outer nodes s.root ⟨scope, f, s⟩ :=
    ⟨hf, hs.names, hs.items, rfl, fun _ _ _ h => hf.typed.chunks_scalar h⟩
  induction hf with
  | static content =>
      intro s out hs visit hmem
      cases List.mem_singleton.1 hmem
      exact hvisit (.static content) hs
  | text hstands hpart ht hscalar =>
      intro s out hs visit hmem
      cases List.mem_singleton.1 hmem
      exact hvisit (.text hstands hpart ht hscalar) hs
  | content hstands hasks ht hscalar =>
      intro s out hs visit hmem
      cases List.mem_singleton.1 hmem
      exact hvisit (.content hstands hasks ht hscalar) hs
  | «attribute» hstands hd hname hcontrol ht htype =>
      intro s out hs visit hmem
      cases List.mem_singleton.1 hmem
      exact hvisit (.attribute hstands hd hname hcontrol ht htype) hs
  | sequence hparts ih =>
      intro s out hs visit hmem
      rcases List.mem_cons.1 hmem with rfl | hmem
      · exact hvisit (.sequence hparts) hs
      · obtain ⟨f, hf, o, hmem⟩ := mem_recordAll hmem
        exact ih f hf hs visit hmem
  | @loop scope e children a head body hstands ha hasks hhead hbody ih =>
      intro s out hs visit hmem
      rcases List.mem_cons.1 hmem with rfl | hmem
      · exact hvisit (.loop hstands ha hasks hhead hbody) hs
      · cases hlist : head.list.eval s with
        | error e =>
            rw [hlist] at hmem
            cases hmem
        | ok v =>
            rw [hlist] at hmem
            cases v with
            | list items =>
                obtain ⟨item, hitem, o, hmem⟩ := mem_recordItems hmem
                exact ih (hs.bind hitem) visit hmem
            | _ => cases hmem
  | @conditional scope a condition body hstands hasks ht htype hbody ih =>
      intro s out hs visit hmem
      rcases List.mem_cons.1 hmem with rfl | hmem
      · exact hvisit (.conditional hstands hasks ht htype hbody) hs
      · cases hcondition : condition.eval s with
        | error e =>
            rw [hcondition] at hmem
            cases hmem
        | ok v =>
            rw [hcondition] at hmem
            cases v with
            | bool b =>
                cases b with
                | true => exact ih hs visit hmem
                | false => cases hmem
            | _ => cases hmem

end Fragment

/-! ## Templates -/

namespace Template

variable {config : Config} {source : Source} {context : ObjectTy} {t : Template}

theorem renderTo_possible (hc : Template.compile config source context = .ok t) (out : String)
    (v : Value) {e : Render.Error} (he : (t.renderTo out v).error = some e) : e.cause.Possible := by
  have hhalts : Fragment.HaltsPossibly (t.fragment.written ⟨t.name, v, []⟩) :=
    Fragment.written_possible (Template.compile_typed hc) .empty
  rw [renderTo, Fragment.render_eq] at he
  exact hhalts e he

theorem visits_fit (hc : Template.compile config source context = .ok t)
    {nodes : List Markup.Node}
    (hcompiled : t.fragment.Compiled ⟨config, source⟩ ⟨context, []⟩ nodes ⟨context, []⟩)
    (out : String) (v : Value) :
    ∀ visit ∈ t.visits out v, visit.Fits ⟨config, source⟩ ⟨context, []⟩ nodes v := by
  have hcontext : t.context = context := by
    obtain ⟨_, _, _, _, rfl⟩ := Template.compile_ok.1 hc
    rfl
  intro visit hmem
  rw [visits, record, hcontext] at hmem
  exact hcompiled.visits_fit .empty visit hmem

/-- Whatever the context is and whatever callbacks do: every fragment that is rendered finds the
names on the stack that it was compiled with, each with a value of the shape of its type; the
output is made of the pieces that these fragments write, where every value is null or a
scalar of its static type; and a rendering does not stop for a name that is not bound or for
the value of a boolean attribute. -/
theorem render_fits (hc : Template.compile config source context = .ok t) (out : String)
    (v : Value) :
    ∃ document, Markup.Document.parse config source = .ok document ∧
      (∀ visit ∈ t.visits out v,
        visit.Fits ⟨config, source⟩ ⟨context, []⟩ document.children v) ∧
      (t.record out v).outcome = t.renderTo out v ∧
      (t.renderTo out v).out = out ++ Chunk.write ((t.visits out v).flatMap Visit.chunks) ∧
      ∀ e, (t.renderTo out v).error = some e →
        (∀ name, e.cause ≠ .unbound name) ∧ ∀ name found, e.cause ≠ .booleanAttribute name found := by
  obtain ⟨document, hparse, hcompiled⟩ := Template.compile_compiled hc
  refine ⟨document, hparse, visits_fit hc hcompiled out v, t.record_outcome out v,
    t.renderTo_out out v, ?_⟩
  intro e he
  have hpossible := renderTo_possible hc out v he
  refine ⟨fun name hcause => ?_, fun name found hcause => ?_⟩
  · rw [hcause] at hpossible
    exact hpossible
  · rw [hcause] at hpossible
    exact hpossible

end Template

/-! ## Tags of products -/

namespace Tags

/-- A product has tags. -/
def product : ObjectTy := (ObjectTy.empty "Product").withField "tags" (.list .string)

/-- A page of products. -/
def page : ObjectTy := (ObjectTy.empty "Page").withField "products" (.list (.object product))

/-- Two loops, of which the inner one hides the name of the outer. -/
def source : Source :=
  .ofString "tags" "<ul c:for='p:products'><li c:for='p:p.tags' c:id='p'>#\x7bp\x7d</li></ul>"

/-- A context that is not what its type says: one of the tags is a number. -/
def context : Value :=
  .object [("products", .list [.object [("tags", .list [.string "tea", .int 3])]])]

/-- The names on the stack of each fragment that is rendered. -/
def names (t : Template) : List (List String) :=
  (t.visits "" context).map fun visit => visit.stack.scopes.map Prod.fst

/-- The theorem at a rendering that stops at the second tag: ten fragments are rendered, six of
them in both loops. -/
theorem render_fits_tags : ∃ t, Template.compile {} source page = .ok t ∧
    names t = [[]] ++ List.replicate 3 ["p"] ++ List.replicate 6 ["p", "p"] ∧
    ∃ document, Markup.Document.parse {} source = .ok document ∧
      ∀ visit ∈ t.visits "" context,
        visit.Fits ⟨{}, source⟩ ⟨page, []⟩ document.children context := by
  have hok : (Template.compile {} source page).toOption.map names =
      some ([[]] ++ List.replicate 3 ["p"] ++ List.replicate 6 ["p", "p"]) := by decide +kernel
  cases hc : Template.compile {} source page with
  | error e =>
      rw [hc] at hok
      cases hok
  | ok t =>
      rw [hc] at hok
      obtain ⟨document, hparse, hfits, -⟩ := Template.render_fits hc "" context
      exact ⟨t, rfl, Option.some.inj hok, document, hparse, hfits⟩

end Tags

end TypedTemplate
