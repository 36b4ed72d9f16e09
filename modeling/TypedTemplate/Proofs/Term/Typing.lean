/-
# `TypedTemplate.Proofs.Term.Typing` — what resolving an expression guarantees

`Term.Typed scope t` says that the types written into the term `t` are the ones that the
scope and the declarations in it give: one rule for each kind of term, and in each the
types of the parts fit the way in which they are used.  Every term that `Expr.resolve`
answers with is typed (`Expr.resolve_typed`), and so is the list of every loop.

Nothing is said here about values.  What a typed term evaluates to depends on the stack,
and different things follow for a context that is of its type and for an arbitrary one.
-/
import Mathlib.Data.List.Forall2
import TypedTemplate.Proofs.Term.Steps

namespace TypedTemplate

/-- The types in a term are those that the scope gives. -/
inductive Term.Typed (scope : Scope) : Term → Prop where
  | constant {location : Location} (literal : Expr.Literal) :
      Typed scope (.constant ⟨literal.type, location⟩ literal)
  /-- The first item gives the type, and the others have an equal one. -/
  | listing {location : Location} {first : Term} {rest : List Term} :
      (∀ t ∈ first :: rest, Typed scope t) → (∀ t ∈ rest, t.type.same first.type = true) →
      Typed scope (.listing ⟨.list first.type, location⟩ (first :: rest))
  | loopName {location : Location} {word : String} {τ : Ty} :
      scope.lookup? word = some τ → Typed scope (.loopName ⟨τ, location⟩ word)
  | rootField {location : Location} {field : String} {τ : Ty} :
      scope.lookup? field = none → scope.root.field? field = some τ →
      Typed scope (.rootField ⟨τ, location⟩ field)
  | fieldOf {location : Location} {base : Term} {field : String} {o : ObjectTy} {τ : Ty} :
      Typed scope base → base.type = .object o → o.field? field = some τ →
      Typed scope (.fieldOf ⟨τ, location⟩ base field)
  | rootCall {location : Location} {name : String} {m : Method} {args : List Term} :
      scope.root.method? name = some m →
      (∀ t ∈ args, Typed scope t) → List.Forall₂ (fun t τ => t.type.same τ = true) args m.params →
      Typed scope (.rootCall ⟨m.returns, location⟩ name m args)
  | methodOf {location : Location} {base : Term} {name : String} {o : ObjectTy} {m : Method}
      {args : List Term} :
      Typed scope base → base.type = .object o → o.method? name = some m →
      (∀ t ∈ args, Typed scope t) → List.Forall₂ (fun t τ => t.type.same τ = true) args m.params →
      Typed scope (.methodOf ⟨m.returns, location⟩ base name m args)
  | builtinOf {location : Location} {base : Term} {builtin : Builtin} :
      Typed scope base → (base.type = .string ∨ ∃ τ, base.type = .list τ) →
      Typed scope (.builtinOf ⟨builtin.returns, location⟩ base builtin)
  | negation {location : Location} {operand : Term} :
      Typed scope operand → operand.type = .bool →
      Typed scope (.negation ⟨.bool, location⟩ operand)

/-! ## Every term that an expression resolves to -/

section Resolved

variable (source : Source) (scope : Scope)

mutual

theorem Expr.resolve_typed : ∀ (e : Expr) {t : Term}, e.resolve source scope = .ok t →
    t.Typed scope
  | .constant literal span, t, h => by
      simp only [Expr.resolve] at h
      cases h
      exact .constant literal
  | .listing items span, t, h => by
      simp only [Expr.resolve, Except.bind_eq_ok] at h
      obtain ⟨ts, hts, h⟩ := h
      obtain ⟨first, rest, rfl, hsame, rfl⟩ := Resolve.listing_ok.1 h
      exact .listing (Expr.resolveAll_typed items hts) hsame
  | .ident word span, t, h => by
      simp only [Expr.resolve] at h
      rcases Resolve.name_ok.1 h with ⟨τ, hτ, rfl⟩ | ⟨τ, hnone, hτ, rfl⟩
      · exact .loopName hτ
      · exact .rootField hnone hτ
  | .rootCall name args span, t, h => by
      simp only [Expr.resolve] at h
      split at h
      · simp [refuse] at h
      · rename_i m hm
        simp only [Except.bind_eq_ok, Except.pure_eq_ok, Resolve.count_ok] at h
        obtain ⟨_, hcount, ts, hts, rfl⟩ := h
        obtain ⟨htyped, hfit⟩ := Expr.resolveArgs_typed args hts hcount
        exact .rootCall hm htyped hfit
  | .fieldOf base field span, t, h => by
      simp only [Expr.resolve, Except.bind_eq_ok] at h
      obtain ⟨b, hb, h⟩ := h
      obtain ⟨o, τ, hbase, hfield, rfl⟩ := Resolve.field_ok.1 h
      exact .fieldOf (Expr.resolve_typed base hb) hbase hfield
  | .methodOf base name args span, t, h => by
      simp only [Expr.resolve, Except.bind_eq_ok] at h
      obtain ⟨b, hb, h⟩ := h
      have hbase := Expr.resolve_typed base hb
      split at h
      · simp [refuse] at h
      · rename_i m hcall
        simp only [Except.bind_eq_ok, Except.pure_eq_ok, Resolve.count_ok] at h
        obtain ⟨_, hcount, ts, hts, rfl⟩ := h
        obtain ⟨o, ho, hm⟩ := Ty.callable?_eq_host.1 hcall
        obtain ⟨htyped, hfit⟩ := Expr.resolveArgs_typed args hts hcount
        exact .methodOf hbase ho hm htyped hfit
      · rename_i b' hcall
        split at h
        · cases Except.pure_eq_ok.1 h
          exact .builtinOf hbase (Ty.callable?_eq_builtin.1 hcall).1
        · simp [refuse] at h
  | .negation operand span, t, h => by
      simp only [Expr.resolve, Except.bind_eq_ok] at h
      obtain ⟨b, hb, h⟩ := h
      obtain ⟨htype, rfl⟩ := Resolve.negation_ok.1 h
      exact .negation (Expr.resolve_typed operand hb) htype

theorem Expr.resolveAll_typed : ∀ (es : List Expr) {ts : List Term},
    Expr.resolveAll source scope es = .ok ts → ∀ t ∈ ts, t.Typed scope
  | [], ts, h => by
      simp only [Expr.resolveAll] at h
      cases h
      simp
  | e :: es, ts, h => by
      simp only [Expr.resolveAll, Except.bind_eq_ok, Except.pure_eq_ok] at h
      obtain ⟨t, ht, rest, hrest, rfl⟩ := h
      intro u hu
      rcases List.mem_cons.mp hu with rfl | hu
      · exact Expr.resolve_typed e ht
      · exact Expr.resolveAll_typed es hrest u hu

theorem Expr.resolveArgs_typed : ∀ (es : List Expr) {method : String} {index : Nat}
    {params : List Ty} {ts : List Term},
    Expr.resolveArgs source scope method index params es = .ok ts → es.length = params.length →
      (∀ t ∈ ts, t.Typed scope) ∧ List.Forall₂ (fun t τ => t.type.same τ = true) ts params
  | [], _, _, params, ts, h, hl => by
      simp only [Expr.resolveArgs] at h
      cases h
      cases params with
      | nil => exact ⟨by simp, .nil⟩
      | cons _ _ => simp at hl
  | e :: es, _, _, params, ts, h, hl => by
      cases params with
      | nil => simp at hl
      | cons τ params =>
          simp only [Expr.resolveArgs, Except.bind_eq_ok] at h
          obtain ⟨t, ht, h⟩ := h
          split at h
          · simp [refuse, bind, Except.bind] at h
          · rename_i hs
            simp only [Except.bind_eq_ok, Except.pure_eq_ok] at h
            obtain ⟨rest, hrest, rfl⟩ := h
            obtain ⟨htyped, hfit⟩ := Expr.resolveArgs_typed es hrest (by simpa using hl)
            refine ⟨fun u hu => ?_, .cons (by simpa using hs) hfit⟩
            rcases List.mem_cons.mp hu with rfl | hu
            · exact Expr.resolve_typed e ht
            · exact htyped u hu

end

end Resolved

theorem Term.read_typed {source : Source} {scope : Scope} {e : Excerpt} {t : Term}
    (h : Term.read source scope e = .ok t) : t.Typed scope := by
  simp only [Term.read, Except.bind_eq_ok] at h
  obtain ⟨expr, -, h⟩ := h
  exact Expr.resolve_typed source scope expr h

end TypedTemplate
