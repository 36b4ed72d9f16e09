/-
# `TypedTemplate.Proofs.Fragment.Typing` — what compiling a template guarantees

`Fragment.Typed scope f` says that every term in the fragment `f` is typed in the scope of
the place where it stands, which grows by one binding inside each loop, and that it has a
type that will do there: a scalar type where a value is written, `Bool` for conditions and
boolean attributes, a list type for loops.  Whatever compiles is typed, since its terms are
what expressions resolve to.
-/
import TypedTemplate.Proofs.Fragment.Compiled
import TypedTemplate.Proofs.Term.Typing

namespace TypedTemplate

/-- The terms of a fragment are typed, each in its scope and for its purpose. -/
inductive Fragment.Typed : Scope → Fragment → Prop where
  | static {scope : Scope} (content : String) : Typed scope (.static content)
  | interpolation {scope : Scope} {t : Term} {escaping : Text.Escaping} :
      t.Typed scope → t.type.isScalar = true → Typed scope (.interpolation t escaping)
  | attribute {scope : Scope} {name : String} {t : Term} {boolean : Bool}
      {escaping : Text.Escaping} :
      t.Typed scope → Compiler.AttributeTy boolean t.type →
      Typed scope (.attribute name t boolean escaping)
  | sequence {scope : Scope} {parts : List Fragment} :
      (∀ f ∈ parts, Typed scope f) → Typed scope (.sequence parts)
  | loop {scope : Scope} {head : Loop} {body : Fragment} :
      head.list.Typed scope → head.list.type = .list head.element →
      Typed (scope.bind head.name head.element) body → Typed scope (.loop head body)
  | conditional {scope : Scope} {condition : Term} {body : Fragment} :
      condition.Typed scope → condition.type = .bool → Typed scope body →
      Typed scope (.conditional condition body)

theorem Fragment.Compiled.typed {c : Compiler} {outer scope : Scope} {nodes : List Markup.Node}
    {f : Fragment} (h : f.Compiled c outer nodes scope) : f.Typed scope := by
  induction h with
  | static content => exact .static content
  | text _ _ ht hs => exact .interpolation (Term.read_typed ht) hs
  | content _ _ ht hs => exact .interpolation (Term.read_typed ht) hs
  | «attribute» _ _ _ _ ht htype => exact .attribute (Term.read_typed ht) htype
  | sequence _ ih => exact .sequence ih
  | loop _ _ _ hhead _ ih =>
      obtain ⟨header, -, -, hlist, htype⟩ := Compiler.loopOf_ok.1 hhead
      exact .loop (Expr.resolve_typed _ _ _ hlist) htype ih
  | conditional _ _ ht htype _ ih => exact .conditional (Term.read_typed ht) htype ih

theorem Template.compile_typed {config : Config} {source : Source} {context : ObjectTy}
    {t : Template} (h : Template.compile config source context = .ok t) :
    t.fragment.Typed ⟨context, []⟩ := by
  obtain ⟨document, -, hcompiled⟩ := Template.compile_compiled h
  exact hcompiled.typed

end TypedTemplate
