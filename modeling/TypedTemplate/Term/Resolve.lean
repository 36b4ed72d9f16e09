/-
# `TypedTemplate.Term.Resolve` — looking up the names of an expression

`Expr.resolve` turns an expression into a term: it finds every name in the scope or
among the members of a declared type, and gives every part a type.  Parts are
looked at from the inside out and from the left, and the first fault is the one
that is reported.
-/
import TypedTemplate.Expr.Read
import TypedTemplate.Term.Basic
import TypedTemplate.Term.Scope

namespace TypedTemplate

open TypedTemplate.Expr (Cause)

/-- A fault in the dynamic part of a template. -/
abbrev ExprFault := Fault Expr.Cause

/-- A fault at a span. -/
def refuse {α : Type} (span : Span) (cause : Cause) : Except ExprFault α := .error ⟨cause, span⟩

/-- The type of a literal. -/
def Expr.Literal.type : Expr.Literal → Ty
  | .bool _ => .bool
  | .int _ => .int
  | .float _ => .float
  | .string _ => .string

/-- A list of the given items; they have to be of one type, which one item at least shows. -/
def Resolve.listing (span : Span) (location : Location) (items : List Term) : Except ExprFault Term :=
  match items with
  | [] => refuse span .emptyList
  | first :: rest =>
    match rest.find? fun item => !item.type.same first.type with
    | some odd => refuse span (.mixedList first.type odd.type)
    | none => .ok (.listing ⟨.list first.type, location⟩ (first :: rest))

/-- A name: the innermost loop binding, or else a field of the context. -/
def Resolve.name (scope : Scope) (span : Span) (location : Location) (word : String) :
    Except ExprFault Term :=
  match scope.lookup? word with
  | some type => .ok (.loopName ⟨type, location⟩ word)
  | none =>
    match scope.root.field? word with
    | some type => .ok (.rootField ⟨type, location⟩ word)
    | none => refuse span (.unknownName word scope.names)

/-- A field of a value. -/
def Resolve.field (span : Span) (location : Location) (base : Term) (field : String) :
    Except ExprFault Term :=
  match base.type.object?.bind fun o => o.field? field with
  | some type => .ok (.fieldOf ⟨type, location⟩ base field)
  | none => refuse span (.unknownField base.type field)

/-- The methods that can be called on a value of some type. -/
inductive Callable where
  | host (method : Method)
  | builtin (builtin : Builtin)

/-- The method of a name that values of a type have: a declared one for objects, a built-in one
for lists and strings. -/
def Ty.callable? (type : Ty) (name : String) : Option Callable :=
  match type with
  | .object o => (o.method? name).map .host
  | .list _ | .string => (Builtin.ofName? name).map .builtin
  | _ => none

/-- A negation of a truth value. -/
def Resolve.negation (span : Span) (location : Location) (operand : Term) : Except ExprFault Term :=
  if operand.type.same .bool then .ok (.negation ⟨.bool, location⟩ operand)
  else refuse span (.negationOf operand.type)

/-- The number of arguments has to be that of the parameters. -/
def Resolve.count (span : Span) (name : String) (params : List Ty) (args : List Expr) :
    Except ExprFault Unit :=
  if args.length = params.length then .ok ()
  else refuse span (.argumentCount name params.length args.length)

mutual

/-- The term that an expression stands for in a scope. -/
def Expr.resolve (source : Source) (scope : Scope) : Expr → Except ExprFault Term
  | .constant literal span =>
    .ok (.constant ⟨literal.type, source.location span.start⟩ literal)
  | .listing items span => do
    Resolve.listing span (source.location span.start) (← Expr.resolveAll source scope items)
  | .ident word span => Resolve.name scope span (source.location span.start) word
  | .rootCall name args span =>
    match scope.root.method? name with
    | none => refuse span (.unknownRootMethod scope.root name)
    | some method => do
      Resolve.count span name method.params args
      let args ← Expr.resolveArgs source scope name 0 method.params args
      return .rootCall ⟨method.returns, source.location span.start⟩ name method args
  | .fieldOf base field span => do
    Resolve.field span (source.location span.start) (← base.resolve source scope) field
  | .methodOf base name args span => do
    let base ← base.resolve source scope
    match base.type.callable? name with
    | none => refuse span (.unknownMethod base.type name)
    | some (.host method) => do
      Resolve.count span name method.params args
      let args ← Expr.resolveArgs source scope name 0 method.params args
      return .methodOf ⟨method.returns, source.location span.start⟩ base name method args
    | some (.builtin builtin) =>
      if args.isEmpty then
        return .builtinOf ⟨builtin.returns, source.location span.start⟩ base builtin
      else refuse span (.builtinArguments builtin.name args.length)
  | .negation operand span => do
    Resolve.negation span (source.location span.start) (← operand.resolve source scope)
termination_by structural e => e

/-- The terms that some expressions stand for. -/
def Expr.resolveAll (source : Source) (scope : Scope) : List Expr → Except ExprFault (List Term)
  | [] => .ok []
  | e :: es => do
    let t ← e.resolve source scope
    let ts ← Expr.resolveAll source scope es
    return t :: ts
termination_by structural es => es

/-- The arguments of a call to `method`, each of the type of its parameter; `index` is the place
of the first. -/
def Expr.resolveArgs (source : Source) (scope : Scope) (method : String) (index : Nat)
    (params : List Ty) : List Expr → Except ExprFault (List Term)
  | [] => .ok []
  | e :: es =>
    match params with
    | [] => .ok []
    | param :: params => do
      let t ← e.resolve source scope
      if !t.type.same param then
        refuse e.span (.argumentType index method param t.type)
      let ts ← Expr.resolveArgs source scope method (index + 1) params es
      return t :: ts
termination_by structural es => es

end

/-- The term of the expression that stands in an excerpt. -/
def Term.read (source : Source) (scope : Scope) (e : Excerpt) : Except ExprFault Term := do
  (← Expr.read e).resolve source scope

end TypedTemplate
