/-
# `TypedTemplate.Proofs.Term.Mentions` — the names that an expression depends on

A name stands for itself in an expression if it is written alone: the name of a field after a
point and that of a method before its arguments are looked up elsewhere, so they do not count
(`Expr.idents`).  Once the names have been found, it is known which of them are loop names
(`Term.loopNames`).

Two scopes over one context that give the names of an expression the same types resolve it to
the same term, or refuse it for the same reason (`Expr.resolve_agree`).  Only the help for an
unknown name lists everything in scope, whether it is mentioned or not (`Fault.SameButHelp`).
Two stacks of one context that give the loop names of a term the same values agree on its value,
and on the error where there is none (`Term.eval_agree`).
-/
import TypedTemplate.Proofs.Except
import TypedTemplate.Term.Eval
import TypedTemplate.Term.Resolve

namespace TypedTemplate

/-! ## Names that stand for themselves -/

mutual

/-- The names that are written alone in an expression. -/
def Expr.idents : Expr → List String
  | .constant _ _ => []
  | .listing items _ => Expr.identsAll items
  | .ident word _ => [word]
  | .rootCall _ args _ => Expr.identsAll args
  | .fieldOf base _ _ => base.idents
  | .methodOf base _ args _ => base.idents ++ Expr.identsAll args
  | .negation operand _ => operand.idents
termination_by structural e => e

/-- The names that are written alone in some expressions. -/
def Expr.identsAll : List Expr → List String
  | [] => []
  | e :: es => e.idents ++ Expr.identsAll es
termination_by structural es => es

end

mutual

/-- The loop names that a term looks up. -/
def Term.loopNames : Term → List String
  | .constant _ _ => []
  | .listing _ items => Term.loopNamesAll items
  | .loopName _ word => [word]
  | .rootField _ _ => []
  | .fieldOf _ base _ => base.loopNames
  | .rootCall _ _ _ args => Term.loopNamesAll args
  | .methodOf _ base _ _ args => base.loopNames ++ Term.loopNamesAll args
  | .builtinOf _ base _ => base.loopNames
  | .negation _ operand => operand.loopNames
termination_by structural t => t

/-- The loop names that some terms look up. -/
def Term.loopNamesAll : List Term → List String
  | [] => []
  | t :: ts => t.loopNames ++ Term.loopNamesAll ts
termination_by structural ts => ts

end

/-! ## Scopes that agree on some names -/

/-- Two scopes over one context that give some names the same types. -/
structure Scope.AgreeOn (names : List String) (s s' : Scope) : Prop where
  root : s.root = s'.root
  lookup? : ∀ word ∈ names, s.lookup? word = s'.lookup? word

namespace Scope.AgreeOn

variable {names more : List String} {s s' : Scope}

theorem left (h : AgreeOn (names ++ more) s s') : AgreeOn names s s' :=
  ⟨h.root, fun word hword => h.lookup? word (List.mem_append_left more hword)⟩

theorem right (h : AgreeOn (names ++ more) s s') : AgreeOn more s s' :=
  ⟨h.root, fun word hword => h.lookup? word (List.mem_append_right names hword)⟩

/-- A binding of another name changes nothing, wherever it stands. -/
theorem insert (root : ObjectTy) (inner outer : List (String × Ty)) {name : String} (τ : Ty)
    (h : name ∉ names) :
    AgreeOn names ⟨root, inner ++ (name, τ) :: outer⟩ ⟨root, inner ++ outer⟩ := by
  refine ⟨rfl, fun word hword => ?_⟩
  have hne : (word == name) = false := beq_false_of_ne fun heq => h (heq ▸ hword)
  rw [Scope.lookup?, Scope.lookup?, List.lookup_append, List.lookup_append, List.lookup_cons, hne]

end Scope.AgreeOn

/-- Two faults that differ in nothing but the help that comes with them. -/
structure Fault.SameButHelp (f f' : ExprFault) : Prop where
  span : f.span = f'.span
  text : f.cause.text = f'.cause.text
  /-- Help differs where the names in scope are listed. -/
  cause : f.cause = f'.cause ∨ ∃ name listed listed',
    f.cause = .unknownName name listed ∧ f'.cause = .unknownName name listed'

/-- The same result, or the same fault up to its help. -/
abbrev SameUpToHelp {α : Type} : Except ExprFault α → Except ExprFault α → Prop :=
  Except.Matches False Eq Fault.SameButHelp

namespace SameUpToHelp

variable {α β : Type}

theorem refl (x : Except ExprFault α) : SameUpToHelp x x := by
  cases x with
  | ok a => exact rfl
  | error f => exact ⟨rfl, rfl, Or.inl rfl⟩

theorem andThen {x y : Except ExprFault α} {f g : α → Except ExprFault β} (h : SameUpToHelp x y)
    (hfg : ∀ a, SameUpToHelp (f a) (g a)) : SameUpToHelp (x >>= f) (y >>= g) := by
  refine h.bind False.elim ?_
  rintro a _ rfl
  exact hfg a

end SameUpToHelp

theorem Resolve.name_agree {s s' : Scope} {word : String} (h : Scope.AgreeOn [word] s s')
    (span : Span) (location : Location) :
    SameUpToHelp (Resolve.name s span location word) (Resolve.name s' span location word) := by
  rw [Resolve.name, Resolve.name, h.lookup? word List.mem_cons_self, h.root]
  cases s'.lookup? word with
  | some τ => exact .refl _
  | none =>
      cases s'.root.field? word with
      | some τ => exact .refl _
      | none => exact ⟨rfl, rfl, Or.inr ⟨word, _, _, rfl, rfl⟩⟩

section

variable (source : Source) {s s' : Scope}

mutual

/-- An expression depends on the scope through the names that are written alone in it. -/
theorem Expr.resolve_agree : ∀ e : Expr, Scope.AgreeOn e.idents s s' →
    SameUpToHelp (e.resolve source s) (e.resolve source s')
  | .constant literal span, _ => .refl _
  | .listing items span, h => by
      simp only [Expr.resolve]
      exact (Expr.resolveAll_agree items h).andThen fun _ => .refl _
  | .ident word span, h => by
      simp only [Expr.resolve]
      exact Resolve.name_agree h span _
  | .rootCall name args span, h => by
      simp only [Expr.resolve, h.root]
      cases s'.root.method? name with
      | none => exact .refl _
      | some method =>
          refine .andThen (.refl _) fun _ => ?_
          exact (Expr.resolveArgs_agree args name 0 method.params h).andThen fun _ => .refl _
  | .fieldOf base field span, h => by
      simp only [Expr.resolve]
      exact (Expr.resolve_agree base h).andThen fun _ => .refl _
  | .methodOf base name args span, h => by
      simp only [Expr.resolve]
      refine (Expr.resolve_agree base h.left).andThen fun base => ?_
      cases base.type.callable? name with
      | none => exact .refl _
      | some callable =>
          cases callable with
          | host method =>
              refine .andThen (.refl _) fun _ => ?_
              exact (Expr.resolveArgs_agree args name 0 method.params h.right).andThen
                fun _ => .refl _
          | builtin builtin => exact .refl _
  | .negation operand span, h => by
      simp only [Expr.resolve]
      exact (Expr.resolve_agree operand h).andThen fun _ => .refl _

theorem Expr.resolveAll_agree : ∀ es : List Expr, Scope.AgreeOn (Expr.identsAll es) s s' →
    SameUpToHelp (Expr.resolveAll source s es) (Expr.resolveAll source s' es)
  | [], _ => .refl _
  | e :: es, h => by
      simp only [Expr.resolveAll]
      refine (Expr.resolve_agree e h.left).andThen fun _ => ?_
      exact (Expr.resolveAll_agree es h.right).andThen fun _ => .refl _

theorem Expr.resolveArgs_agree : ∀ (es : List Expr) (method : String) (index : Nat)
    (params : List Ty), Scope.AgreeOn (Expr.identsAll es) s s' →
    SameUpToHelp (Expr.resolveArgs source s method index params es)
      (Expr.resolveArgs source s' method index params es)
  | [], _, _, _, _ => .refl _
  | e :: es, method, index, [], _ => .refl _
  | e :: es, method, index, param :: params, h => by
      simp only [Expr.resolveArgs]
      refine (Expr.resolve_agree e h.left).andThen fun argument => ?_
      split
      · exact .refl _
      · exact (Expr.resolveArgs_agree es method (index + 1) params h.right).andThen fun _ => .refl _

end

/-- What stands in an excerpt is read in the same way in every scope. -/
theorem Term.read_agree (e : Excerpt) (h : ∀ tree, Expr.read e = .ok tree →
    Scope.AgreeOn tree.idents s s') :
    SameUpToHelp (Term.read source s e) (Term.read source s' e) := by
  rw [Term.read, Term.read]
  cases hread : Expr.read e with
  | error fault => exact .refl _
  | ok tree => exact Expr.resolve_agree source tree (h tree hread)

end

/-! ## Stacks that agree on some names -/

/-- Two stacks of one template and one context that give some names the same values. -/
structure Stack.AgreeOn (names : List String) (s s' : Stack) : Prop where
  template : s.template = s'.template
  root : s.root = s'.root
  lookup? : ∀ word ∈ names, s.lookup? word = s'.lookup? word

namespace Stack.AgreeOn

variable {names more : List String} {s s' : Stack}

theorem left (h : AgreeOn (names ++ more) s s') : AgreeOn names s s' :=
  ⟨h.template, h.root, fun word hword => h.lookup? word (List.mem_append_left more hword)⟩

theorem right (h : AgreeOn (names ++ more) s s') : AgreeOn more s s' :=
  ⟨h.template, h.root, fun word hword => h.lookup? word (List.mem_append_right names hword)⟩

end Stack.AgreeOn

/-! ### Steps that ask a stack for nothing but the name of its template -/

section

variable {s s' : Stack} (h : s.template = s'.template) {location : Location}

include h

theorem Stack.error_agree {α : Type} (cause : Render.Cause) :
    (s.error location cause : Except Render.Error α) = s'.error location cause := by
  rw [Stack.error, Stack.error, h]

theorem Value.read_agree (v : Value) (field : String) :
    v.read s location field = v.read s' location field := by
  cases v <;> simp only [Value.read, Stack.error_agree h]

theorem Typing.check_agree (t : Typing) (v : Value) : t.check s v = t.check s' v := by
  rw [Typing.check, Typing.check, Stack.error_agree h]

theorem Method.invoke_agree (m : Method) (t : Typing) (name : String) (receiver : Value)
    (args : List Value) : m.invoke s t name receiver args = m.invoke s' t name receiver args := by
  simp only [Method.invoke, Typing.check_agree h, Stack.error_agree h]

theorem Builtin.eval_agree (b : Builtin) (τ : Ty) (v : Value) :
    b.eval s location τ v = b.eval s' location τ v := by
  unfold Builtin.eval
  split <;> first | rfl | exact Stack.error_agree h _

theorem Value.negate_agree (v : Value) : v.negate s location = v.negate s' location := by
  cases v <;> simp only [Value.negate, Stack.error_agree h]

end

namespace Term

variable {s s' : Stack}

mutual

/-- A term depends on the loops around it through the loop names in it. -/
theorem eval_agree : ∀ t : Term, Stack.AgreeOn t.loopNames s s' → t.eval s = t.eval s'
  | .constant _ _, _ => rfl
  | .listing _ items, h => by
      simp only [eval, evalAll_agree items h]
  | .loopName t word, h => by
      simp only [eval, h.lookup? word List.mem_cons_self, Stack.error_agree h.template]
  | .rootField t field, h => by
      simp only [eval, h.root, Value.read_agree h.template]
  | .fieldOf t base field, h => by
      simp only [eval, eval_agree base h, Value.read_agree h.template]
  | .rootCall t name method args, h => by
      simp only [eval, h.root, evalAll_agree args h, Stack.error_agree h.template,
        Method.invoke_agree h.template]
  | .methodOf t base name method args, h => by
      simp only [eval, eval_agree base h.left, evalAll_agree args h.right,
        Stack.error_agree h.template, Method.invoke_agree h.template]
  | .builtinOf t base builtin, h => by
      simp only [eval, eval_agree base h, Builtin.eval_agree h.template]
  | .negation t operand, h => by
      simp only [eval, eval_agree operand h, Value.negate_agree h.template]

theorem evalAll_agree : ∀ ts : List Term, Stack.AgreeOn (loopNamesAll ts) s s' →
    evalAll s ts = evalAll s' ts
  | [], _ => rfl
  | t :: ts, h => by
      simp only [evalAll, eval_agree t h.left, evalAll_agree ts h.right]

end

theorem conforming_agree (t : Term) (h : Stack.AgreeOn t.loopNames s s') :
    t.conforming s = t.conforming s' := by
  simp only [conforming, eval_agree t h, Typing.check_agree h.template]

end Term

end TypedTemplate
