/-
# `TypedTemplate.Proofs.Term.Bare` — terms without their places

A term knows where it begins so that an error can say where it was raised.  `bare` forgets
it, in terms and in errors.  What an expression resolves to, apart from places, depends on
the expression apart from places (`Expr.resolve_bare`); so an excerpt stands for the same
term wherever it stands, and in whatever source (`Term.read_offset`).  The value of a term is
that of the bare term, and a failure is the same apart from its place (`Term.eval_bare`).
-/
import TypedTemplate.Proofs.Expr.Bare
import TypedTemplate.Term.Eval
import TypedTemplate.Term.Resolve

namespace TypedTemplate

/-! ## Taking the places out -/

/-- The type of a term without its place. -/
def Typing.bare (t : Typing) : Typing := { t with location := .first }

/-- An error without its place. -/
def Render.Error.bare (e : Render.Error) : Render.Error := { e with location := .first }

namespace Term

mutual

/-- A term without its places. -/
def bare : Term → Term
  | constant t literal => constant t.bare literal
  | listing t items => listing t.bare (bareAll items)
  | loopName t word => loopName t.bare word
  | rootField t field => rootField t.bare field
  | fieldOf t base field => fieldOf t.bare (bare base) field
  | rootCall t name method args => rootCall t.bare name method (bareAll args)
  | methodOf t base name method args => methodOf t.bare (bare base) name method (bareAll args)
  | builtinOf t base builtin => builtinOf t.bare (bare base) builtin
  | negation t operand => negation t.bare (bare operand)
termination_by structural t => t

/-- Some terms without their places. -/
def bareAll : List Term → List Term
  | [] => []
  | t :: ts => bare t :: bareAll ts
termination_by structural ts => ts

end

theorem bareAll_eq_map (ts : List Term) : bareAll ts = ts.map bare := by
  induction ts with
  | nil => rfl
  | cons t ts ih => rw [bareAll, ih, List.map_cons]

@[simp] theorem bare_typing (t : Term) : t.bare.typing = t.typing.bare := by cases t <;> rfl

@[simp] theorem bare_type (t : Term) : t.bare.type = t.type := by cases t <;> rfl

end Term

/-! ## Looking up names -/

section

open Markup (noSpan)

variable {source : Source} {scope : Scope} {span : Span} {location : Location}

theorem Source.location_zero (source : Source) : source.location 0 = .first := by
  obtain ⟨name, chars⟩ := source
  cases chars <;> rfl

theorem Resolve.listing_bare (items : List Term) :
    (listing span location items).toOption.map Term.bare =
      (listing noSpan .first (items.map Term.bare)).toOption := by
  cases items with
  | nil => rfl
  | cons first rest =>
      have hfind : (rest.map Term.bare).find? (fun item => !item.type.same first.type) =
          (rest.find? fun item => !item.type.same first.type).map Term.bare := by
        simp only [List.find?_map, Function.comp_def, Term.bare_type]
      simp only [listing, List.map_cons, Term.bare_type, hfind]
      cases rest.find? fun item => !item.type.same first.type with
      | some odd => rfl
      | none => simp [Except.toOption, Term.bare, Term.bareAll_eq_map, Typing.bare]

theorem Resolve.name_bare (word : String) :
    (name scope span location word).toOption.map Term.bare =
      (name scope noSpan .first word).toOption := by
  unfold name
  split
  · rfl
  · split <;> rfl

theorem Resolve.field_bare (base : Term) (member : String) :
    (field span location base member).toOption.map Term.bare =
      (field noSpan .first base.bare member).toOption := by
  unfold field
  rw [Term.bare_type]
  split <;> rfl

theorem Resolve.negation_bare (operand : Term) :
    (negation span location operand).toOption.map Term.bare =
      (negation noSpan .first operand.bare).toOption := by
  unfold negation
  rw [Term.bare_type]
  split <;> rfl

theorem Resolve.count_bare (name : String) (params : List Ty) (args : List Expr) :
    (count span name params args).toOption =
      (count noSpan name params (args.map Expr.bare)).toOption := by
  unfold count
  rw [List.length_map]
  split <;> rfl

mutual

/-- Apart from places, the term of an expression is that of the expression without them. -/
theorem Expr.resolve_bare (source' : Source) : ∀ e : Expr,
    (e.resolve source scope).toOption.map Term.bare = (e.bare.resolve source' scope).toOption
  | .constant literal span => by
      simp [bare, resolve, Except.toOption, Term.bare, Typing.bare, noSpan, Source.location_zero]
  | .listing items span => by
      simp only [bare, resolve, noSpan, Source.location_zero]
      exact Except.map_toOption_bind (Expr.resolveAll_bare source' items) Resolve.listing_bare
  | .ident word span => by
      simp only [bare, resolve, noSpan, Source.location_zero]
      exact Resolve.name_bare word
  | .rootCall name args span => by
      simp only [bare, resolve]
      cases scope.root.method? name with
      | none => rfl
      | some method =>
          refine Except.map_toOption_bind (g := id) ?_ fun _ => ?_
          · rw [Option.map_id_fun, id_eq, Resolve.count_bare, Expr.bareAll_eq_map]
          · refine Except.map_toOption_bind (Expr.resolveArgs_bare source' name args 0 _)
              fun ts => ?_
            simp [Except.toOption, pure, Except.pure, Term.bare, Term.bareAll_eq_map, Typing.bare,
              Source.location_zero, noSpan]
  | .fieldOf base field span => by
      simp only [bare, resolve, noSpan, Source.location_zero]
      exact Except.map_toOption_bind (Expr.resolve_bare source' base)
        fun t => Resolve.field_bare t field
  | .methodOf base name args span => by
      simp only [bare, resolve]
      refine Except.map_toOption_bind (Expr.resolve_bare source' base) fun t => ?_
      rw [Term.bare_type]
      cases t.type.callable? name with
      | none => rfl
      | some callable =>
          cases callable with
          | host method =>
              refine Except.map_toOption_bind (g := id) ?_ fun _ => ?_
              · rw [Option.map_id_fun, id_eq, Resolve.count_bare, Expr.bareAll_eq_map]
              · refine Except.map_toOption_bind (Expr.resolveArgs_bare source' name args 0 _)
                  fun ts => ?_
                simp [Except.toOption, pure, Except.pure, Term.bare, Term.bareAll_eq_map,
                  Typing.bare, Source.location_zero, noSpan]
          | builtin builtin =>
              rw [Expr.bareAll_eq_map]
              simp only [List.isEmpty_map]
              split
              · simp [Except.toOption, pure, Except.pure, Term.bare, Typing.bare,
                  Source.location_zero, noSpan]
              · rfl
  | .negation operand span => by
      simp only [bare, resolve, noSpan, Source.location_zero]
      exact Except.map_toOption_bind (Expr.resolve_bare source' operand) Resolve.negation_bare

theorem Expr.resolveAll_bare (source' : Source) : ∀ es : List Expr,
    (Expr.resolveAll source scope es).toOption.map (List.map Term.bare) =
      (Expr.resolveAll source' scope (Expr.bareAll es)).toOption
  | [] => rfl
  | e :: es => by
      simp only [bareAll, resolveAll]
      refine Except.map_toOption_bind (Expr.resolve_bare source' e) fun t => ?_
      refine Except.map_toOption_bind (Expr.resolveAll_bare source' es) fun ts => ?_
      rfl

theorem Expr.resolveArgs_bare (source' : Source) (method : String) :
    ∀ (es : List Expr) (index : Nat) (params : List Ty),
    (Expr.resolveArgs source scope method index params es).toOption.map (List.map Term.bare) =
      (Expr.resolveArgs source' scope method index params (Expr.bareAll es)).toOption
  | [], _, _ => rfl
  | e :: es, index, params => by
      cases params with
      | nil => rfl
      | cons param params =>
          simp only [bareAll, resolveArgs]
          refine Except.map_toOption_bind (Expr.resolve_bare source' e) fun t => ?_
          rw [Term.bare_type]
          split
          · rfl
          · refine Except.map_toOption_bind (Expr.resolveArgs_bare source' method es _ params)
              fun ts => ?_
            rfl

end

/-- An excerpt stands for the same term wherever it stands. -/
theorem Term.read_offset (scope : Scope) (source source' : Source) (pos pos' : Nat)
    (cs : List Char) :
    (Term.read source scope ⟨pos, cs⟩).toOption.map Term.bare =
      (Term.read source' scope ⟨pos', cs⟩).toOption.map Term.bare := by
  have hread (source : Source) (pos : Nat) :
      (Term.read source scope ⟨pos, cs⟩).toOption.map Term.bare =
        ((Expr.read ⟨pos, cs⟩).toOption.map Expr.bare).bind
          fun e => (e.resolve source' scope).toOption := by
    rw [Term.read, Except.toOption_bind]
    cases (Expr.read ⟨pos, cs⟩).toOption with
    | none => rfl
    | some e => exact e.resolve_bare source'
  rw [hread, hread, Expr.read_offset pos pos']

end

/-! ## Values -/

section

variable {stack : Stack}

theorem Typing.check_bare (t : Typing) (value : Value) :
    (t.check stack value).mapError Render.Error.bare = t.bare.check stack value := by
  unfold check
  show _ = if value.conforms t.type then _ else _
  split <;> rfl

theorem Value.read_bare (location : Location) (field : String) (value : Value) :
    (value.read stack location field).mapError Render.Error.bare =
      value.read stack .first field := by
  cases value with
  | object fields =>
      simp only [read]
      split <;> rfl
  | _ => rfl

theorem Value.negate_bare (location : Location) (value : Value) :
    (value.negate stack location).mapError Render.Error.bare = value.negate stack .first := by
  cases value <;> rfl

theorem Method.invoke_bare (method : Method) (t : Typing) (name : String) (receiver : Value)
    (args : List Value) : (method.invoke stack t name receiver args).mapError Render.Error.bare =
      method.invoke stack t.bare name receiver args := by
  unfold invoke
  split
  · exact t.check_bare _
  · rfl

theorem Builtin.eval_bare (builtin : Builtin) (location : Location) (type : Ty) (value : Value) :
    (builtin.eval stack location type value).mapError Render.Error.bare =
      builtin.eval stack .first type value := by
  unfold eval
  split <;> rfl

end

namespace Term

mutual

/-- The value of a term is that of the term without its places, failures included. -/
theorem eval_bare (stack : Stack) : ∀ t : Term,
    (t.eval stack).mapError Render.Error.bare = t.bare.eval stack
  | constant t literal => rfl
  | listing t items => by
      simp only [bare, eval]
      rw [Except.mapError_bind, evalAll_bare stack items]
      rfl
  | loopName t word => by
      simp only [bare, eval]
      split <;> rfl
  | rootField t field => by
      simp only [bare, eval]
      exact Value.read_bare _ _ _
  | fieldOf t base field => by
      simp only [bare, eval]
      rw [Except.mapError_bind, eval_bare stack base]
      simp only [Value.read_bare]
      rfl
  | rootCall t name method args => by
      simp only [bare, eval]
      split
      · rfl
      · rw [Except.mapError_bind, evalAll_bare stack args]
        simp only [Method.invoke_bare]
  | methodOf t base name method args => by
      simp only [bare, eval]
      rw [Except.mapError_bind, eval_bare stack base]
      congr 1
      funext receiver
      split
      · rfl
      · rw [Except.mapError_bind, evalAll_bare stack args]
        simp only [Method.invoke_bare]
  | builtinOf t base builtin => by
      simp only [bare, eval]
      rw [Except.mapError_bind, eval_bare stack base]
      simp only [Builtin.eval_bare, bare_type]
      rfl
  | negation t operand => by
      simp only [bare, eval]
      rw [Except.mapError_bind, eval_bare stack operand]
      simp only [Value.negate_bare]
      rfl

theorem evalAll_bare (stack : Stack) : ∀ ts : List Term,
    (evalAll stack ts).mapError Render.Error.bare = evalAll stack (bareAll ts)
  | [] => rfl
  | t :: ts => by
      simp only [bareAll, evalAll]
      rw [Except.mapError_bind, eval_bare stack t]
      congr 1
      funext value
      rw [Except.mapError_bind, evalAll_bare stack ts]
      rfl

end

theorem conforming_bare (stack : Stack) (t : Term) :
    (t.conforming stack).mapError Render.Error.bare = t.bare.conforming stack := by
  rw [conforming, conforming, Except.mapError_bind, eval_bare, bare_typing]
  simp only [Typing.check_bare]

end Term

end TypedTemplate
