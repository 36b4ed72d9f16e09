/-
# `TypedTemplate.Proofs.Expr.Faults` — a fault in an expression is about characters of the template

An expression that cannot be divided into tokens is at fault where the token would be that is
none, one that cannot be read at a token or at the end, and one that cannot be resolved at one of
its nodes.  All of these are covered in the excerpt (`tokensFrom_error`, `ofTokens_error`,
`nodes_of_ofTokens`).  So where the excerpt stands in a text, a fault covers characters of the
text, and an expression that is read brings only such spans with it (`Expr.read_obeys`,
`Expr.resolve_faultLies`).
-/
import TypedTemplate.Proofs.Expr.Nodes
import TypedTemplate.Proofs.Except
import TypedTemplate.Term.Resolve

namespace TypedTemplate

open Text

/-! ## Computations that fail at places of a text -/

section

variable {α β Cause : Type}

/-- If there is a fault, it covers characters of the text. -/
def FaultLies (text : List Char) (x : Except (Fault Cause) α) : Prop :=
  x.Obeys (fun _ => True) fun fault => Lies text fault.span

namespace FaultLies

variable {text : List Char}

theorem ok (a : α) : FaultLies text (.ok a : Except (Fault Cause) α) := trivial

theorem refuse {span : Span} (h : Lies text span) (cause : Expr.Cause) :
    FaultLies text (refuse span cause : Except ExprFault α) := h

theorem bind {x : Except (Fault Cause) α} {f : α → Except (Fault Cause) β} (hx : FaultLies text x)
    (hf : ∀ a, FaultLies text (f a)) : FaultLies text (x >>= f) :=
  Except.Obeys.bind hx fun a _ => hf a

/-- What comes of it if there is no fault. -/
theorem eq_ok {x : Except (Fault Cause) α} (hx : FaultLies text x) :
    x.Obeys (fun a => x = .ok a) fun fault => Lies text fault.span := by
  cases x with
  | ok a => exact rfl
  | error fault => exact hx

end FaultLies

end

namespace Expr

/-! ## Reading -/

variable {e : Excerpt} {ts us : List Token} {f : Fault Cause}

theorem tokens_error (h : tokens e = .error f) : ∃ taken, e.Covers f.span taken := by
  obtain ⟨skipped, taken, rest, hchars, hspan⟩ := tokensFrom_error h
  exact ⟨taken, skipped, rest, hchars, hspan⟩

/-- Some tokens of an excerpt that form no expression are at fault at one of them, or at the end of
the excerpt. -/
theorem ofTokens_error (hts : tokens e = .ok ts) (hus : us ⊆ ts) (h : ofTokens e us = .error f) :
    ∃ taken, e.Covers f.span taken := by
  rcases readFrom_eq_error h with ⟨before, t, after, s, rfl, -, hstep⟩ | ⟨s, -, hfinish⟩
  · have ht : t ∈ ts := hus (List.mem_append_right _ List.mem_cons_self)
    obtain ⟨taken, hcovers, -⟩ := (tokens_eq_ok.1 hts).covers ht
    rw [State.step_span hstep]
    exact ⟨taken, hcovers⟩
  · rw [State.finish_span hfinish]
    exact ⟨[], e.chars, [], by simp, rfl⟩

end Expr

section

open TypedTemplate.Expr (tokens ofTokens)

variable {text : List Char} {e : Excerpt}

/-- What is covered in an excerpt that stands in a text is covered in the text. -/
theorem Excerpt.lies (h : slice? text e.span = some e.chars) {span : Span}
    (hcovers : ∃ taken, e.Covers span taken) : Lies text span := by
  obtain ⟨taken, hcovers⟩ := hcovers
  exact ⟨taken, hcovers.slice h⟩

theorem Excerpt.tokens_faultLies (h : slice? text e.span = some e.chars) :
    FaultLies text (tokens e) := by
  cases hts : tokens e with
  | ok ts => exact .ok ts
  | error f => exact e.lies h (Expr.tokens_error hts)

/-- Tokens that follow one another form an expression whose nodes are all in the text, or else one
of the tokens or the end is at fault. -/
theorem Excerpt.ofTokens_obeys (h : slice? text e.span = some e.chars) {ts us : List Expr.Token}
    (hts : tokens e = .ok ts) (hus : us <:+: ts) : (ofTokens e us).Obeys
      (fun x => ∀ n ∈ x.nodes, Lies text n.span) fun f => Lies text f.span := by
  cases hx : ofTokens e us with
  | ok x =>
      intro n hn
      obtain ⟨q, taken, -, -, -, hcovers, -⟩ := Expr.nodes_of_ofTokens hts hus hx n hn
      exact e.lies h ⟨taken, hcovers⟩
  | error f => exact e.lies h (Expr.ofTokens_error hts hus.subset hx)

theorem Expr.read_obeys (h : slice? text e.span = some e.chars) : (Expr.read e).Obeys
    (fun x => ∀ n ∈ x.nodes, Lies text n.span) fun f => Lies text f.span :=
  (e.tokens_faultLies h).eq_ok.bind fun _ hts => e.ofTokens_obeys h hts List.infix_rfl

theorem LoopHeader.read_obeys (h : slice? text e.span = some e.chars) : (LoopHeader.read e).Obeys
    (fun header => ∀ n ∈ header.list.nodes, Lies text n.span) fun f => Lies text f.span := by
  refine (e.tokens_faultLies h).eq_ok.bind fun ts hts => ?_
  have hwhole : Lies text e.span := ⟨e.chars, h⟩
  unfold LoopHeader.ofTokens
  split
  · rename_i word span colon t us
    split
    · have hlater : t :: us <:+: ⟨.name word, span⟩ :: ⟨.colon, colon⟩ :: t :: us :=
        ⟨[⟨.name word, span⟩, ⟨.colon, colon⟩], [], List.append_nil _⟩
      exact (e.ofTokens_obeys h hts hlater).map fun _ hlist => hlist
    · exact hwhole
  · exact hwhole

/-! ## Resolving -/

section

variable {source : Source} {scope : Scope} {span : Span} {location : Location}

theorem Resolve.listing_faultLies (h : Lies text span) (items : List Term) :
    FaultLies text (Resolve.listing span location items) := by
  unfold listing
  split
  · exact .refuse h _
  · split
    · exact .refuse h _
    · exact .ok _

theorem Resolve.name_faultLies (h : Lies text span) (word : String) :
    FaultLies text (Resolve.name scope span location word) := by
  unfold name
  split
  · exact .ok _
  · split
    · exact .ok _
    · exact .refuse h _

theorem Resolve.field_faultLies (h : Lies text span) (base : Term) (field : String) :
    FaultLies text (Resolve.field span location base field) := by
  unfold Resolve.field
  split
  · exact .ok _
  · exact .refuse h _

theorem Resolve.negation_faultLies (h : Lies text span) (operand : Term) :
    FaultLies text (Resolve.negation span location operand) := by
  unfold negation
  split
  · exact .ok _
  · exact .refuse h _

theorem Resolve.count_faultLies (h : Lies text span) (name : String) (params : List Ty)
    (args : List Expr) : FaultLies text (Resolve.count span name params args) := by
  unfold count
  split
  · exact .ok _
  · exact .refuse h _

mutual

/-- An expression that cannot be resolved is at fault at one of its nodes. -/
theorem Expr.resolve_faultLies : ∀ x : Expr, (∀ n ∈ x.nodes, Lies text n.span) →
    FaultLies text (x.resolve source scope)
  | .constant _ _, _ => .ok _
  | .listing items span, h => by
      obtain ⟨hself, hitems⟩ := List.forall_mem_cons.1 h
      exact (Expr.resolveAll_faultLies items hitems).bind fun _ =>
        Resolve.listing_faultLies hself _
  | .ident word span, h => Resolve.name_faultLies (h _ List.mem_cons_self) word
  | .rootCall name args span, h => by
      obtain ⟨hself, hargs⟩ := List.forall_mem_cons.1 h
      rw [Expr.resolve]
      split
      · exact .refuse hself _
      · exact (Resolve.count_faultLies hself _ _ _).bind fun _ =>
          (Expr.resolveArgs_faultLies args hargs name 0 _).bind fun _ => .ok _
  | .fieldOf base field span, h => by
      obtain ⟨hself, hbase⟩ := List.forall_mem_cons.1 h
      exact (Expr.resolve_faultLies base hbase).bind fun _ => Resolve.field_faultLies hself _ _
  | .methodOf base name args span, h => by
      obtain ⟨hself, hparts⟩ := List.forall_mem_cons.1 h
      obtain ⟨hbase, hargs⟩ := List.forall_mem_append.1 hparts
      rw [Expr.resolve]
      refine (Expr.resolve_faultLies base hbase).bind fun t => ?_
      split
      · exact .refuse hself _
      · exact (Resolve.count_faultLies hself _ _ _).bind fun _ =>
          (Expr.resolveArgs_faultLies args hargs name 0 _).bind fun _ => .ok _
      · split
        · exact .ok _
        · exact .refuse hself _
  | .negation operand span, h => by
      obtain ⟨hself, hoperand⟩ := List.forall_mem_cons.1 h
      exact (Expr.resolve_faultLies operand hoperand).bind fun _ =>
        Resolve.negation_faultLies hself _

theorem Expr.resolveAll_faultLies : ∀ xs : List Expr, (∀ n ∈ Expr.nodesAll xs, Lies text n.span) →
    FaultLies text (Expr.resolveAll source scope xs)
  | [], _ => .ok _
  | x :: xs, h => by
      obtain ⟨hx, hxs⟩ := List.forall_mem_append.1 h
      exact (Expr.resolve_faultLies x hx).bind fun _ =>
        (Expr.resolveAll_faultLies xs hxs).bind fun _ => .ok _

theorem Expr.resolveArgs_faultLies : ∀ xs : List Expr, (∀ n ∈ Expr.nodesAll xs, Lies text n.span) →
    ∀ (method : String) (index : Nat) (params : List Ty),
      FaultLies text (Expr.resolveArgs source scope method index params xs)
  | [], _, _, _, _ => .ok _
  | _ :: _, _, _, _, [] => .ok _
  | x :: xs, h, method, index, param :: params => by
      obtain ⟨hx, hxs⟩ := List.forall_mem_append.1 h
      have hself : Lies text x.span := hx x x.mem_nodes_self
      rw [Expr.resolveArgs]
      refine (Expr.resolve_faultLies x hx).bind fun t => ?_
      have hmore := (Expr.resolveArgs_faultLies xs hxs method (index + 1) params).bind
        fun ts => FaultLies.ok (t :: ts)
      split
      · exact .refuse hself _
      · exact hmore

end

/-- The expression that stands in an excerpt. -/
theorem Term.read_faultLies (h : slice? text e.span = some e.chars) :
    FaultLies text (Term.read source scope e) :=
  (Expr.read_obeys h).bind fun x hx => x.resolve_faultLies hx

end

end

end TypedTemplate
