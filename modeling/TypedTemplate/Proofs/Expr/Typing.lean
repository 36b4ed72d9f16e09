/-
# `TypedTemplate.Proofs.Expr.Typing` — which expressions have a type, and which

`Expr.HasType scope e τ` gives the types of expressions by rules, one for each way in which
an expression can be used, without terms, spans or messages.  An expression resolves if and
only if it has a type, and the type of the term is that type (`Expr.resolve_iff`); so where
a theorem about templates speaks of well-typed expressions, this relation can stand for
resolving.

The checker compares types with `Ty.same`, which is coarser than equality: it does not look
at callbacks.  So the items of a list have to agree with the first one, whose type is the
one that counts, and the arguments of a call with the parameters.
-/
import Mathlib.Data.List.Forall2
import TypedTemplate.Proofs.Term.Steps

namespace TypedTemplate

/-- The types of expressions in a scope. -/
inductive Expr.HasType (scope : Scope) : Expr → Ty → Prop where
  | constant (literal : Expr.Literal) (span : Span) :
      HasType scope (.constant literal span) literal.type
  /-- The first item gives the type, and the others agree with it. -/
  | listing {first : Expr} {rest : List Expr} {span : Span} {τ : Ty} {τs : List Ty} :
      HasType scope first τ → List.Forall₂ (HasType scope) rest τs →
      (∀ σ ∈ τs, σ.same τ = true) → HasType scope (.listing (first :: rest) span) (.list τ)
  | loopName {word : String} {span : Span} {τ : Ty} :
      scope.lookup? word = some τ → HasType scope (.ident word span) τ
  /-- A loop's name hides the field. -/
  | rootField {word : String} {span : Span} {τ : Ty} :
      scope.lookup? word = none → scope.root.field? word = some τ →
      HasType scope (.ident word span) τ
  | rootCall {name : String} {args : List Expr} {span : Span} {m : Method} {τs : List Ty} :
      scope.root.method? name = some m → List.Forall₂ (HasType scope) args τs →
      List.Forall₂ (fun σ τ => σ.same τ = true) τs m.params →
      HasType scope (.rootCall name args span) m.returns
  | fieldOf {base : Expr} {field : String} {span : Span} {o : ObjectTy} {τ : Ty} :
      HasType scope base (.object o) → o.field? field = some τ →
      HasType scope (.fieldOf base field span) τ
  | methodOf {base : Expr} {name : String} {args : List Expr} {span : Span} {o : ObjectTy}
      {m : Method} {τs : List Ty} :
      HasType scope base (.object o) → o.method? name = some m →
      List.Forall₂ (HasType scope) args τs →
      List.Forall₂ (fun σ τ => σ.same τ = true) τs m.params →
      HasType scope (.methodOf base name args span) m.returns
  /-- Lists and strings have methods without arguments. -/
  | builtinOf {base : Expr} {name : String} {span : Span} {τ : Ty} {builtin : Builtin} :
      HasType scope base τ → (τ = .string ∨ ∃ σ, τ = .list σ) →
      Builtin.ofName? name = some builtin →
      HasType scope (.methodOf base name [] span) builtin.returns
  | negation {operand : Expr} {span : Span} :
      HasType scope operand .bool → HasType scope (.negation operand span) .bool

/-! ## Every expression that resolves has the type of its term -/

section

variable {source : Source} {scope : Scope}

mutual

theorem Expr.resolve_hasType : ∀ (e : Expr) {t : Term}, e.resolve source scope = .ok t →
    e.HasType scope t.type
  | .constant literal span, t, h => by
      simp only [Expr.resolve] at h
      cases h
      exact .constant literal span
  | .listing items span, t, h => by
      simp only [Expr.resolve, Except.bind_eq_ok] at h
      obtain ⟨ts, hts, h⟩ := h
      obtain ⟨first, rest, rfl, hsame, rfl⟩ := Resolve.listing_ok.1 h
      have hitems := Expr.resolveAll_hasTypes items hts
      cases hitems with
      | cons hfirst hrest =>
          refine .listing hfirst hrest ?_
          simpa using hsame
  | .ident word span, t, h => by
      simp only [Expr.resolve] at h
      rcases Resolve.name_ok.1 h with ⟨τ, hτ, rfl⟩ | ⟨τ, hnone, hτ, rfl⟩
      · exact .loopName hτ
      · exact .rootField hnone hτ
  | .rootCall name args span, t, h => by
      simp only [Expr.resolve] at h
      split at h
      · simp [refuse] at h
      · rename_i m hm
        simp only [Except.bind_eq_ok, Except.pure_eq_ok, Resolve.count_ok] at h
        obtain ⟨_, hcount, ts, hts, rfl⟩ := h
        obtain ⟨hargs, hfit⟩ := Expr.resolveArgs_hasTypes args hts hcount
        exact .rootCall hm hargs hfit
  | .fieldOf base field span, t, h => by
      simp only [Expr.resolve, Except.bind_eq_ok] at h
      obtain ⟨b, hb, h⟩ := h
      obtain ⟨o, τ, hbase, hfield, rfl⟩ := Resolve.field_ok.1 h
      have ih := Expr.resolve_hasType base hb
      rw [hbase] at ih
      exact .fieldOf ih hfield
  | .methodOf base name args span, t, h => by
      simp only [Expr.resolve, Except.bind_eq_ok] at h
      obtain ⟨b, hb, h⟩ := h
      have ih := Expr.resolve_hasType base hb
      split at h
      · simp [refuse] at h
      · rename_i m hcall
        simp only [Except.bind_eq_ok, Except.pure_eq_ok, Resolve.count_ok] at h
        obtain ⟨_, hcount, ts, hts, rfl⟩ := h
        obtain ⟨o, ho, hm⟩ := Ty.callable?_eq_host.1 hcall
        obtain ⟨hargs, hfit⟩ := Expr.resolveArgs_hasTypes args hts hcount
        rw [ho] at ih
        exact .methodOf ih hm hargs hfit
      · rename_i builtin hcall
        obtain ⟨hkind, hname⟩ := Ty.callable?_eq_builtin.1 hcall
        split at h
        · rename_i hempty
          cases Except.pure_eq_ok.1 h
          rw [List.isEmpty_iff.1 hempty]
          exact .builtinOf ih hkind hname
        · simp [refuse] at h
  | .negation operand span, t, h => by
      simp only [Expr.resolve, Except.bind_eq_ok] at h
      obtain ⟨b, hb, h⟩ := h
      obtain ⟨htype, rfl⟩ := Resolve.negation_ok.1 h
      have ih := Expr.resolve_hasType operand hb
      rw [htype] at ih
      exact .negation ih

theorem Expr.resolveAll_hasTypes : ∀ (es : List Expr) {ts : List Term},
    Expr.resolveAll source scope es = .ok ts →
      List.Forall₂ (Expr.HasType scope) es (ts.map Term.type)
  | [], ts, h => by
      simp only [Expr.resolveAll] at h
      cases h
      exact .nil
  | e :: es, ts, h => by
      simp only [Expr.resolveAll, Except.bind_eq_ok, Except.pure_eq_ok] at h
      obtain ⟨t, ht, rest, hrest, rfl⟩ := h
      exact .cons (Expr.resolve_hasType e ht) (Expr.resolveAll_hasTypes es hrest)

theorem Expr.resolveArgs_hasTypes : ∀ (es : List Expr) {method : String} {index : Nat}
    {params : List Ty} {ts : List Term},
    Expr.resolveArgs source scope method index params es = .ok ts → es.length = params.length →
      List.Forall₂ (Expr.HasType scope) es (ts.map Term.type) ∧
        List.Forall₂ (fun σ τ => σ.same τ = true) (ts.map Term.type) params
  | [], _, _, params, ts, h, hl => by
      simp only [Expr.resolveArgs] at h
      cases h
      cases params with
      | nil => exact ⟨.nil, .nil⟩
      | cons _ _ => simp at hl
  | e :: es, _, _, params, ts, h, hl => by
      cases params with
      | nil => simp at hl
      | cons τ params =>
          simp only [Expr.resolveArgs, Except.bind_eq_ok] at h
          obtain ⟨t, ht, h⟩ := h
          split at h
          · simp [refuse, bind, Except.bind] at h
          · rename_i hs
            simp only [Except.bind_eq_ok, Except.pure_eq_ok] at h
            obtain ⟨rest, hrest, rfl⟩ := h
            obtain ⟨htypes, hfit⟩ := Expr.resolveArgs_hasTypes es hrest (by simpa using hl)
            exact ⟨.cons (Expr.resolve_hasType e ht) htypes, .cons (by simpa using hs) hfit⟩

end

/-! ## Every expression that has a type resolves -/

mutual

theorem Expr.HasType.resolves : ∀ (e : Expr) {τ : Ty}, e.HasType scope τ →
    ∃ t, e.resolve source scope = .ok t ∧ t.type = τ
  | .constant literal span, τ, h => by
      cases h
      exact ⟨_, rfl, rfl⟩
  | .listing items span, τ, h => by
      cases h with
      | @listing first rest _ τ τs hfirst hrest hsame =>
          obtain ⟨ts, hts, htypes⟩ := Expr.HasType.resolvesAll (first :: rest) (.cons hfirst hrest)
          simp only [List.map_eq_cons_iff] at htypes
          obtain ⟨t, rest', rfl, rfl, rfl⟩ := htypes
          refine ⟨.listing ⟨.list t.type, source.location span.start⟩ (t :: rest'), ?_, rfl⟩
          simp only [Expr.resolve, Except.bind_eq_ok]
          refine ⟨t :: rest', hts, Resolve.listing_ok.2 ⟨t, rest', rfl, ?_, rfl⟩⟩
          simpa using hsame
  | .ident word span, τ, h => by
      simp only [Expr.resolve]
      cases h with
      | loopName hτ => exact ⟨_, Resolve.name_ok.2 (Or.inl ⟨τ, hτ, rfl⟩), rfl⟩
      | rootField hnone hτ => exact ⟨_, Resolve.name_ok.2 (Or.inr ⟨τ, hnone, hτ, rfl⟩), rfl⟩
  | .rootCall name args span, τ, h => by
      cases h with
      | @rootCall _ _ _ m τs hm hargs hfit =>
          obtain ⟨ts, hts⟩ := Expr.HasType.resolvesArgs args hargs hfit name 0
          have hcount : args.length = m.params.length := hargs.length_eq.trans hfit.length_eq
          refine ⟨.rootCall ⟨m.returns, source.location span.start⟩ name m ts, ?_, rfl⟩
          simp only [Expr.resolve, hm, Except.bind_eq_ok, Except.pure_eq_ok]
          exact ⟨(), Resolve.count_ok.2 hcount, ts, hts, rfl⟩
  | .fieldOf base field span, τ, h => by
      cases h with
      | @fieldOf _ _ _ o _ hbase hfield =>
          obtain ⟨b, hb, htype⟩ := Expr.HasType.resolves base hbase
          refine ⟨.fieldOf ⟨τ, source.location span.start⟩ b field, ?_, rfl⟩
          simp only [Expr.resolve, Except.bind_eq_ok]
          exact ⟨b, hb, Resolve.field_ok.2 ⟨o, τ, htype, hfield, rfl⟩⟩
  | .methodOf base name args span, τ, h => by
      cases h with
      | @methodOf _ _ _ _ o m τs hbase hm hargs hfit =>
          obtain ⟨b, hb, htype⟩ := Expr.HasType.resolves base hbase
          obtain ⟨ts, hts⟩ := Expr.HasType.resolvesArgs args hargs hfit name 0
          have hcount : args.length = m.params.length := hargs.length_eq.trans hfit.length_eq
          have hcall := Ty.callable?_eq_host.2 ⟨o, htype, hm⟩
          refine ⟨.methodOf ⟨m.returns, source.location span.start⟩ b name m ts, ?_, rfl⟩
          simp only [Expr.resolve, Except.bind_eq_ok]
          refine ⟨b, hb, ?_⟩
          simp only [hcall, Except.bind_eq_ok, Except.pure_eq_ok]
          exact ⟨(), Resolve.count_ok.2 hcount, ts, hts, rfl⟩
      | @builtinOf _ _ _ σ builtin hbase hkind hname =>
          obtain ⟨b, hb, rfl⟩ := Expr.HasType.resolves base hbase
          have hcall := Ty.callable?_eq_builtin.2 ⟨hkind, hname⟩
          refine ⟨.builtinOf ⟨builtin.returns, source.location span.start⟩ b builtin, ?_, rfl⟩
          simp only [Expr.resolve, Except.bind_eq_ok]
          refine ⟨b, hb, ?_⟩
          simp only [hcall]
          rfl
  | .negation operand span, τ, h => by
      cases h with
      | negation hoperand =>
          obtain ⟨t, ht, htype⟩ := Expr.HasType.resolves operand hoperand
          refine ⟨.negation ⟨.bool, source.location span.start⟩ t, ?_, rfl⟩
          simp only [Expr.resolve, Except.bind_eq_ok]
          exact ⟨t, ht, Resolve.negation_ok.2 ⟨htype, rfl⟩⟩

theorem Expr.HasType.resolvesAll : ∀ (es : List Expr) {τs : List Ty},
    List.Forall₂ (Expr.HasType scope) es τs →
      ∃ ts, Expr.resolveAll source scope es = .ok ts ∧ ts.map Term.type = τs
  | [], τs, h => by
      cases h
      exact ⟨[], rfl, rfl⟩
  | e :: es, τs, h => by
      cases h with
      | cons he hes =>
          obtain ⟨t, ht, rfl⟩ := Expr.HasType.resolves e he
          obtain ⟨ts, hts, rfl⟩ := Expr.HasType.resolvesAll es hes
          refine ⟨t :: ts, ?_, rfl⟩
          simp only [Expr.resolveAll, Except.bind_eq_ok, Except.pure_eq_ok]
          exact ⟨t, ht, ts, hts, rfl⟩

theorem Expr.HasType.resolvesArgs : ∀ (es : List Expr) {τs params : List Ty},
    List.Forall₂ (Expr.HasType scope) es τs →
    List.Forall₂ (fun σ τ => σ.same τ = true) τs params → ∀ (method : String) (index : Nat),
      ∃ ts, Expr.resolveArgs source scope method index params es = .ok ts
  | [], τs, params, _, _, method, index => ⟨[], rfl⟩
  | e :: es, τs, params, h, hfit, method, index => by
      cases h with
      | cons he hes =>
          cases hfit with
          | cons hsame hfit =>
              obtain ⟨t, ht, rfl⟩ := Expr.HasType.resolves e he
              obtain ⟨ts, hts⟩ := Expr.HasType.resolvesArgs es hes hfit method (index + 1)
              refine ⟨t :: ts, ?_⟩
              simp only [Expr.resolveArgs, Except.bind_eq_ok]
              refine ⟨t, ht, ?_⟩
              rw [if_neg (by simp [hsame])]
              simp only [Except.bind_eq_ok, Except.pure_eq_ok]
              exact ⟨ts, hts, rfl⟩

end

/-- An expression resolves to a term of some type if and only if it has the type. -/
theorem Expr.resolve_iff {e : Expr} {τ : Ty} :
    (∃ t, e.resolve source scope = .ok t ∧ t.type = τ) ↔ e.HasType scope τ := by
  constructor
  · rintro ⟨t, ht, rfl⟩
    exact Expr.resolve_hasType e ht
  · exact Expr.HasType.resolves e

end

/-! ## Expressions in excerpts -/

/-- An expression of the type stands in the excerpt. -/
def Excerpt.HasType (scope : Scope) (e : Excerpt) (τ : Ty) : Prop :=
  ∃ expr, Expr.read e = .ok expr ∧ expr.HasType scope τ

/-- An expression of a suitable type is read if and only if one stands there. -/
theorem Term.read_iff {source : Source} {scope : Scope} {e : Excerpt} {P : Ty → Prop} :
    (∃ t, Term.read source scope e = .ok t ∧ P t.type) ↔ ∃ τ, e.HasType scope τ ∧ P τ := by
  simp only [Term.read, Except.bind_eq_ok]
  constructor
  · rintro ⟨t, ⟨expr, hread, ht⟩, htype⟩
    exact ⟨t.type, ⟨expr, hread, Expr.resolve_hasType expr ht⟩, htype⟩
  · rintro ⟨τ, ⟨expr, hread, hexpr⟩, htype⟩
    obtain ⟨t, ht, rfl⟩ : ∃ t, expr.resolve source scope = .ok t ∧ t.type = τ :=
      Expr.resolve_iff.2 hexpr
    exact ⟨t, ⟨expr, hread, ht⟩, htype⟩

end TypedTemplate
