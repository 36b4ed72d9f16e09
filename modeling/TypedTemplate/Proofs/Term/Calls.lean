/-
# `TypedTemplate.Proofs.Term.Calls` — what host callbacks are given

`Term.traced` evaluates a term and keeps a record of the callbacks that are called on the
way, each with its receiver and arguments.  It is evaluation otherwise
(`Term.traced_result`), and it makes a record exactly where `Method.invoke` stands.

A callback can rely on two things in every case: it has as many arguments as parameters,
and its receiver is not null.  That receiver and arguments also have the shape that was
declared depends on where they come from.  Loop items, results of calls and computed values
have been compared with their types; the context and its fields have not.  So a call is
as declared if and only if the fields that it takes its receiver and its arguments from
have the shapes of their types, and the context is an object if it is the receiver
(`Term.calls_proper`).
-/
import TypedTemplate.Proofs.Render.Binding
import TypedTemplate.Proofs.Term.Typing
import TypedTemplate.Term.Eval

namespace TypedTemplate

/-- A call of a host callback, and what it was written as. -/
structure Call where
  name : String
  method : Method
  receiver : Value
  args : List Value
  /-- The term of the receiver; without one it is the context. -/
  base : Option Term
  operands : List Term
  stack : Stack

/-- The call is what the declaration of the method promises. -/
structure Call.AsDeclared (c : Call) : Prop where
  receiver : ∃ fields, c.receiver = .object fields
  count : c.args.length = c.method.params.length
  args : List.Forall₂ (fun v τ => v.conforms τ = true) c.args c.method.params

/-! ## Evaluation with a record of calls -/

/-- A result, and the calls that were made for it. -/
structure Traced (ω : Type) where
  calls : List Call
  result : ω

namespace Traced

variable {ω ε α β : Type}

/-- No calls are made. -/
def quiet (result : ω) : Traced ω := ⟨[], result⟩

/-- What is done with a value, if there is one. -/
def bind (x : Traced (Except ε α)) (f : α → Traced (Except ε β)) : Traced (Except ε β) :=
  match x.result with
  | .ok a => ⟨x.calls ++ (f a).calls, (f a).result⟩
  | .error e => ⟨x.calls, .error e⟩

theorem result_bind (x : Traced (Except ε α)) (f : α → Traced (Except ε β)) :
    (x.bind f).result = x.result >>= fun a => (f a).result := by
  obtain ⟨calls, result⟩ := x
  cases result <;> rfl

theorem mem_bind {x : Traced (Except ε α)} {f : α → Traced (Except ε β)} {c : Call} :
    c ∈ (x.bind f).calls ↔ c ∈ x.calls ∨ ∃ a, x.result = .ok a ∧ c ∈ (f a).calls := by
  obtain ⟨calls, result⟩ := x
  cases result <;> simp [bind]

end Traced

namespace Term

mutual

/-- The value of a term, with the calls that were made for it. -/
def traced (stack : Stack) : Term → Traced (Except Render.Error Value)
  | constant _ literal => .quiet (.ok literal.value)
  | listing _ items => (tracedAll stack items).bind fun values => .quiet (.ok (.list values))
  | loopName t word =>
    match stack.lookup? word with
    | some value => .quiet (.ok value)
    | none => .quiet (stack.error t.location (.unbound word))
  | rootField t field => .quiet (stack.root.read stack t.location field)
  | fieldOf t base field =>
    (traced stack base).bind fun value => .quiet (value.read stack t.location field)
  | rootCall t name method args =>
    if stack.root.isNull then .quiet (stack.error t.location (.callOnNull name))
    else
      (tracedAll stack args).bind fun values =>
        ⟨[⟨name, method, stack.root, values, none, args, stack⟩],
          method.invoke stack t name stack.root values⟩
  | methodOf t base name method args =>
    (traced stack base).bind fun receiver =>
      if receiver.isNull then .quiet (stack.error t.location (.callOnNull name))
      else
        (tracedAll stack args).bind fun values =>
          ⟨[⟨name, method, receiver, values, some base, args, stack⟩],
            method.invoke stack t name receiver values⟩
  | builtinOf t base builtin =>
    (traced stack base).bind fun value => .quiet (builtin.eval stack t.location base.type value)
  | negation t operand =>
    (traced stack operand).bind fun value => .quiet (value.negate stack t.location)
termination_by structural t => t

/-- The values of some terms, with the calls that were made for them. -/
def tracedAll (stack : Stack) : List Term → Traced (Except Render.Error (List Value))
  | [] => .quiet (.ok [])
  | t :: ts =>
    (traced stack t).bind fun value =>
      (tracedAll stack ts).bind fun values => .quiet (.ok (value :: values))
termination_by structural ts => ts

end

mutual

/-- The record changes nothing. -/
theorem traced_result (s : Stack) : ∀ t : Term, (t.traced s).result = t.eval s
  | constant _ _ => rfl
  | listing _ items => by
      rw [traced, Traced.result_bind, tracedAll_result s items, eval]
      rfl
  | loopName t word => by
      rw [traced, eval]
      cases s.lookup? word <;> rfl
  | rootField _ _ => rfl
  | fieldOf _ base _ => by
      rw [traced, Traced.result_bind, traced_result s base, eval]
      rfl
  | rootCall _ _ _ args => by
      rw [traced, eval]
      split
      · rfl
      · rw [Traced.result_bind, tracedAll_result s args]
  | methodOf _ base _ _ args => by
      rw [traced, Traced.result_bind, traced_result s base, eval]
      congr 1
      funext receiver
      split
      · rfl
      · rw [Traced.result_bind, tracedAll_result s args]
  | builtinOf _ base _ => by
      rw [traced, Traced.result_bind, traced_result s base, eval]
      rfl
  | negation _ operand => by
      rw [traced, Traced.result_bind, traced_result s operand, eval]
      rfl

theorem tracedAll_result (s : Stack) : ∀ ts : List Term, (tracedAll s ts).result = evalAll s ts
  | [] => rfl
  | t :: ts => by
      rw [tracedAll, Traced.result_bind, traced_result s t, evalAll]
      congr 1
      funext value
      rw [Traced.result_bind, tracedAll_result s ts]
      rfl

end

/-! ## Values that nothing was compared with -/

mutual

/-- The fields that the value of a term was taken from, if it was, have the shapes of their
types. -/
def FieldsFit (s : Stack) : Term → Prop
  | rootField t field => ∀ v, s.root.read s t.location field = .ok v → v.conforms t.type = true
  | fieldOf t base field =>
    ∀ b v, base.eval s = .ok b → b.read s t.location field = .ok v → v.conforms t.type = true
  | listing _ items => FieldsFitAll s items
  | _ => True
termination_by structural t => t

/-- As `FieldsFit`, for some terms. -/
def FieldsFitAll (s : Stack) : List Term → Prop
  | [] => True
  | t :: ts => FieldsFit s t ∧ FieldsFitAll s ts
termination_by structural ts => ts

end

theorem fieldsFitAll_iff {s : Stack} {ts : List Term} :
    FieldsFitAll s ts ↔ ∀ t ∈ ts, t.FieldsFit s := by
  induction ts with
  | nil => simp [FieldsFitAll]
  | cons t ts ih => simp [FieldsFitAll, ih]

end Term

/-- Where a call takes its receiver and its arguments from, the shapes are right. -/
structure Call.FieldsFit (c : Call) : Prop where
  base : match c.base with
    | some t => t.FieldsFit c.stack
    | none => ∃ fields, c.stack.root = .object fields
  operands : ∀ t ∈ c.operands, t.FieldsFit c.stack

/-- What holds of every call. -/
structure Call.Proper (c : Call) : Prop where
  count : c.args.length = c.method.params.length
  receiver : c.receiver ≠ .null
  declared : c.AsDeclared ↔ c.FieldsFit

/-- The item of every loop has the shape of its type. -/
abbrev Stack.Shaped (scope : Scope) (s : Stack) : Prop :=
  s.Binds (fun v τ => v.conforms τ = true) scope

theorem Value.isObject_iff {v : Value} (hv : v ≠ .null) (o : ObjectTy) :
    (∃ fields, v = .object fields) ↔ v.conforms (.object o) = true := by
  cases v with
  | null => exact (hv rfl).elim
  | object fields => exact ⟨fun _ => rfl, fun _ => ⟨fields, rfl⟩⟩
  | _ =>
      constructor
      · rintro ⟨_, h⟩
        cases h
      · intro h
        cases h

theorem Typing.conforms_of_check {t : Typing} {s : Stack} {v w : Value}
    (h : t.check s v = .ok w) : w.conforms t.type = true := by
  rw [Typing.check] at h
  split at h
  · rename_i hc
    cases h
    exact hc
  · cases h

theorem Method.conforms_of_invoke {m : Method} {s : Stack} {t : Typing} {name : String}
    {receiver v : Value} {args : List Value} (h : m.invoke s t name receiver args = .ok v) :
    v.conforms t.type = true := by
  rw [Method.invoke] at h
  split at h
  · exact Typing.conforms_of_check h
  · cases h

theorem Builtin.conforms_of_eval {b : Builtin} {s : Stack} {location : Location} {τ : Ty}
    {v w : Value} (h : b.eval s location τ v = .ok w) : w.conforms b.returns = true := by
  have happly : ∀ n, (b.apply n).conforms b.returns = true := by
    intro n
    cases b <;> rfl
  unfold Builtin.eval at h
  split at h
  · cases h
    exact happly _
  · cases h
    exact happly _
  · cases h
  · cases h

theorem Value.conforms_of_negate {s : Stack} {location : Location} {v w : Value}
    (h : v.negate s location = .ok w) : w.conforms .bool = true := by
  unfold Value.negate at h
  split at h
  · cases h
    rfl
  · cases h

namespace Term

variable {scope : Scope} {s : Stack}

theorem evalAll_forall₂ : ∀ {ts : List Term} {vs : List Value}, evalAll s ts = .ok vs →
    List.Forall₂ (fun t v => t.eval s = .ok v) ts vs
  | [], _, h => by
      cases h
      exact .nil
  | t :: ts, _, h => by
      obtain ⟨v, hv, hrest⟩ := Except.bind_eq_ok.1 h
      obtain ⟨vs, hvs, hpure⟩ := Except.bind_eq_ok.1 hrest
      cases Except.pure_eq_ok.1 hpure
      exact .cons hv (evalAll_forall₂ hvs)

/-- The values of some terms have shapes that are asked for, if their fields fit. -/
theorem conform_iff_all {ts : List Term} {vs : List Value}
    (hv : List.Forall₂ (fun t v => v.conforms t.type = true ↔ t.FieldsFit s) ts vs) {τs : List Ty}
    (hτ : List.Forall₂ (fun t τ => t.type.same τ = true) ts τs) :
    List.Forall₂ (fun v τ => v.conforms τ = true) vs τs ↔ ∀ t ∈ ts, t.FieldsFit s := by
  induction hv generalizing τs with
  | nil =>
      cases hτ
      simp
  | @cons t v ts vs hiff _ ih =>
      cases hτ with
      | cons hsame hrest =>
          rw [List.forall₂_cons, List.forall_mem_cons, ← Value.conforms_congr t.type hsame v, hiff,
            ih hrest]

/-- The same for a list of values that are asked for one shape. -/
theorem conform_iff_list {ts : List Term} {vs : List Value}
    (hv : List.Forall₂ (fun t v => v.conforms t.type = true ↔ t.FieldsFit s) ts vs) {τ : Ty}
    (hτ : ∀ t ∈ ts, ∀ v : Value, v.conforms t.type = v.conforms τ) :
    (∀ v ∈ vs, v.conforms τ = true) ↔ ∀ t ∈ ts, t.FieldsFit s := by
  induction hv with
  | nil => simp
  | @cons t v ts vs hiff _ ih =>
      obtain ⟨ht, hts⟩ := List.forall_mem_cons.1 hτ
      rw [List.forall_mem_cons, List.forall_mem_cons, ← ht v, hiff, ih hts]

/-- What is said of each term and its value holds of the terms and values of a list. -/
theorem forall₂_of_evalAll {P : Term → Value → Prop} {ts : List Term} {vs : List Value}
    (h : evalAll s ts = .ok vs) (hP : ∀ t ∈ ts, ∀ v, t.eval s = .ok v → P t v) :
    List.Forall₂ P ts vs := by
  have hev := evalAll_forall₂ h
  clear h
  induction hev with
  | nil => exact .nil
  | @cons t v ts vs hv _ ih =>
      obtain ⟨ht, hts⟩ := List.forall_mem_cons.1 hP
      exact .cons (ht v hv) (ih hts)

theorem conforms_iff (hs : s.Shaped scope) {t : Term} (ht : t.Typed scope) :
    ∀ v, t.eval s = .ok v → (v.conforms t.type = true ↔ t.FieldsFit s) := by
  induction ht with
  | constant literal =>
      intro v h
      cases h
      exact ⟨fun _ => trivial, fun _ => by cases literal <;> rfl⟩
  | @listing location first rest hitems hsame ih =>
      intro v h
      obtain ⟨vs, hvs, hpure⟩ := Except.bind_eq_ok.1 h
      cases Except.pure_eq_ok.1 hpure
      have hτ : ∀ t ∈ first :: rest, ∀ v : Value, v.conforms t.type = v.conforms first.type := by
        intro t ht v
        rcases List.mem_cons.1 ht with rfl | hrest
        · rfl
        · exact Value.conforms_congr t.type (hsame t hrest) v
      rw [FieldsFit, fieldsFitAll_iff, ← conform_iff_list (forall₂_of_evalAll hvs ih) hτ]
      exact Value.allConform_iff
  | @loopName _ word τ hw =>
      intro v h
      obtain ⟨w, hlookup, hconf⟩ := hs.lookup? hw
      simp only [eval, hlookup] at h
      cases h
      exact ⟨fun _ => trivial, fun _ => hconf⟩
  | rootField _ _ =>
      intro v h
      exact ⟨fun hc w hw => by cases h.symm.trans hw; exact hc, fun hf => hf v h⟩
  | fieldOf _ _ _ _ =>
      intro v h
      obtain ⟨b, hb, hread⟩ := Except.bind_eq_ok.1 h
      refine ⟨fun hc b' w hb' hw => ?_, fun hf => hf b v hb hread⟩
      cases hb.symm.trans hb'
      cases hread.symm.trans hw
      exact hc
  | rootCall _ _ _ _ =>
      intro v h
      simp only [eval] at h
      split at h
      · cases h
      · obtain ⟨vs, -, hinvoke⟩ := Except.bind_eq_ok.1 h
        exact ⟨fun _ => trivial, fun _ => Method.conforms_of_invoke hinvoke⟩
  | methodOf _ _ _ _ _ _ _ =>
      intro v h
      obtain ⟨r, -, hrest⟩ := Except.bind_eq_ok.1 h
      split at hrest
      · cases hrest
      · obtain ⟨vs, -, hinvoke⟩ := Except.bind_eq_ok.1 hrest
        exact ⟨fun _ => trivial, fun _ => Method.conforms_of_invoke hinvoke⟩
  | builtinOf _ _ _ =>
      intro v h
      obtain ⟨w, -, hw⟩ := Except.bind_eq_ok.1 h
      exact ⟨fun _ => trivial, fun _ => Builtin.conforms_of_eval hw⟩
  | negation _ _ _ =>
      intro v h
      obtain ⟨w, -, hw⟩ := Except.bind_eq_ok.1 h
      exact ⟨fun _ => trivial, fun _ => Value.conforms_of_negate hw⟩

/-! ## All calls -/

/-- A call of a method on the context or on a value of a declared type. -/
theorem call_proper (hs : s.Shaped scope) {name : String} {m : Method} {args : List Term}
    (hargs : ∀ t ∈ args, t.Typed scope)
    (hfit : List.Forall₂ (fun t τ => t.type.same τ = true) args m.params) {values : List Value}
    (hvalues : evalAll s args = .ok values) {receiver : Value} (hnull : receiver.isNull ≠ true)
    {base : Option Term}
    (hbase : (∃ fields, receiver = .object fields) ↔
      match base with
      | some t => t.FieldsFit s
      | none => ∃ fields, s.root = .object fields) :
    Call.Proper ⟨name, m, receiver, values, base, args, s⟩ := by
  have hcount : values.length = m.params.length := by
    rw [← hfit.length_eq, ← (evalAll_forall₂ hvalues).length_eq]
  have hconform := conform_iff_all
    (forall₂_of_evalAll hvalues fun t ht => conforms_iff hs (hargs t ht)) hfit
  refine ⟨hcount, fun h => hnull (by rw [show receiver = .null from h]; rfl), ?_, ?_⟩
  · intro h
    exact ⟨hbase.1 h.receiver, hconform.1 h.args⟩
  · intro h
    exact ⟨hbase.2 h.base, hcount, hconform.2 h.operands⟩

theorem mem_tracedAll {ts : List Term} {c : Call} (h : c ∈ (tracedAll s ts).calls) :
    ∃ t ∈ ts, c ∈ (t.traced s).calls := by
  induction ts with
  | nil => cases h
  | cons t ts ih =>
      rw [tracedAll, Traced.mem_bind] at h
      rcases h with h | ⟨v, -, h⟩
      · exact ⟨t, List.mem_cons_self, h⟩
      · rcases Traced.mem_bind.1 h with h | ⟨vs, -, h⟩
        · obtain ⟨u, hu, hc⟩ := ih h
          exact ⟨u, List.mem_cons_of_mem t hu, hc⟩
        · cases h

/-- The calls that are made for a typed term. -/
theorem calls_proper (hs : s.Shaped scope) {t : Term} (ht : t.Typed scope) :
    ∀ c ∈ (t.traced s).calls, c.Proper := by
  induction ht with
  | constant _ =>
      intro c hc
      cases hc
  | listing _ _ ih =>
      intro c hc
      rw [traced, Traced.mem_bind] at hc
      rcases hc with hc | ⟨vs, -, hc⟩
      · obtain ⟨t, ht, hct⟩ := mem_tracedAll hc
        exact ih t ht c hct
      · cases hc
  | loopName _ =>
      intro c hc
      rw [traced] at hc
      split at hc <;> cases hc
  | rootField _ _ =>
      intro c hc
      cases hc
  | fieldOf _ _ _ ih =>
      intro c hc
      rw [traced, Traced.mem_bind] at hc
      rcases hc with hc | ⟨v, -, hc⟩
      · exact ih c hc
      · cases hc
  | rootCall hm hargs hfit ih =>
      intro c hc
      rw [traced] at hc
      split at hc
      · cases hc
      · rename_i hnull
        rcases Traced.mem_bind.1 hc with hc | ⟨values, hvalues, hc⟩
        · obtain ⟨t, ht, hct⟩ := mem_tracedAll hc
          exact ih t ht c hct
        · rw [List.mem_singleton.1 hc]
          rw [tracedAll_result] at hvalues
          exact call_proper hs hargs hfit hvalues hnull Iff.rfl
  | @methodOf _ base _ o _ _ hb ho hm hargs hfit ihb ih =>
      intro c hc
      rw [traced, Traced.mem_bind] at hc
      rcases hc with hc | ⟨receiver, hreceiver, hc⟩
      · exact ihb c hc
      · rw [traced_result] at hreceiver
        split at hc
        · cases hc
        · rename_i hnull
          rcases Traced.mem_bind.1 hc with hc | ⟨values, hvalues, hc⟩
          · obtain ⟨t, ht, hct⟩ := mem_tracedAll hc
            exact ih t ht c hct
          · rw [List.mem_singleton.1 hc]
            rw [tracedAll_result] at hvalues
            refine call_proper hs hargs hfit hvalues hnull ?_
            rw [Value.isObject_iff (fun h => hnull (by rw [h]; rfl)) o, ← ho]
            exact conforms_iff hs hb receiver hreceiver
  | builtinOf _ _ ih =>
      intro c hc
      rw [traced, Traced.mem_bind] at hc
      rcases hc with hc | ⟨v, -, hc⟩
      · exact ih c hc
      · cases hc
  | negation _ _ ih =>
      intro c hc
      rw [traced, Traced.mem_bind] at hc
      rcases hc with hc | ⟨v, -, hc⟩
      · exact ih c hc
      · cases hc

end Term

end TypedTemplate
