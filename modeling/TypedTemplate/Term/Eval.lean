/-
# `TypedTemplate.Term.Eval` — the value of a term

`Term.eval` finds the value of a term on a stack.  Operands come before the operation
and go from left to right; the receiver of a call is looked at before its arguments
are.  A value is compared with its static type where a host callback returns it and,
by `Term.conforming`, where it is about to be written; fields of the context and
loop values are taken as they come.
-/
import TypedTemplate.Render.Fault
import TypedTemplate.Term.Basic
import TypedTemplate.Value.Shape

namespace TypedTemplate

/-- The value, if it has the shape of the type. -/
def Typing.check (t : Typing) (stack : Stack) (value : Value) : Except Render.Error Value :=
  if value.conforms t.type then .ok value
  else stack.error t.location (.shape t.type value.kind)

/-- A field of a value. -/
def Value.read (stack : Stack) (location : Location) (field : String) :
    Value → Except Render.Error Value
  | .object fields =>
    match Entries.get? field fields with
    | some value => .ok value
    | none => stack.error location (.missingField field)
  | .null => stack.error location (.fieldOfNull field)
  | other => stack.error location (.fieldOf field other.kind)

/-- A call of a host method whose receiver is not null. -/
def Method.invoke (method : Method) (stack : Stack) (t : Typing) (name : String)
    (receiver : Value) (args : List Value) : Except Render.Error Value :=
  match method.call receiver args with
  | .ok value => t.check stack value
  | .error reason => stack.error t.location (.callbackFailed name reason)

/-- A call of a built-in method on a value of static type `type`. -/
def Builtin.eval (builtin : Builtin) (stack : Stack) (location : Location) (type : Ty)
    (value : Value) : Except Render.Error Value :=
  match type, value with
  | .list _, .list items => .ok (builtin.apply items.length)
  | .string, .string s => .ok (builtin.apply s.length)
  | _, .null => stack.error location (.callOnNull builtin.name)
  | type, other => stack.error location (.builtinMismatch builtin.name type other.kind)

/-- The negation of a value. -/
def Value.negate (stack : Stack) (location : Location) : Value → Except Render.Error Value
  | .bool b => .ok (.bool !b)
  | other => stack.error location (.negationOf other.kind)

namespace Term

mutual

/-- The value of a term. -/
def eval (stack : Stack) : Term → Except Render.Error Value
  | constant _ literal => .ok literal.value
  | listing _ items => do return .list (← evalAll stack items)
  | loopName t word =>
    match stack.lookup? word with
    | some value => .ok value
    | none => stack.error t.location (.unbound word)
  | rootField t field => stack.root.read stack t.location field
  | fieldOf t base field => do (← eval stack base).read stack t.location field
  | rootCall t name method args =>
    if stack.root.isNull then stack.error t.location (.callOnNull name)
    else do method.invoke stack t name stack.root (← evalAll stack args)
  | methodOf t base name method args => do
    let receiver ← eval stack base
    if receiver.isNull then stack.error t.location (.callOnNull name)
    else method.invoke stack t name receiver (← evalAll stack args)
  | builtinOf t base builtin => do
    builtin.eval stack t.location base.type (← eval stack base)
  | negation t operand => do (← eval stack operand).negate stack t.location
termination_by structural t => t

/-- The values of some terms, from left to right. -/
def evalAll (stack : Stack) : List Term → Except Render.Error (List Value)
  | [] => .ok []
  | t :: ts => do
    let value ← eval stack t
    let values ← evalAll stack ts
    return value :: values
termination_by structural ts => ts

end

/-- The value of a term, if it has the shape of the term's type. -/
def conforming (stack : Stack) (t : Term) : Except Render.Error Value := do
  t.typing.check stack (← t.eval stack)

end Term

end TypedTemplate
