/-
# `TypedTemplate.Ty.Basic` — the types a host declares for its context

The host says beforehand what its context looks like: which fields an object has
and of which types, what a list holds, and which methods a template may call, each
with a callback that carries the call out.  Expressions are checked against these
declarations when a template is compiled.

Types are equal (`Ty.same`) when they are declared alike: two object types need the
same name, the same fields with equal types and the same methods with equal
signatures, in whatever order; callbacks are not compared.
-/
import TypedTemplate.Value.Basic

namespace TypedTemplate

/-- What the host runs for a method: given the receiver and the arguments, it answers with
a value or fails with a reason. -/
abbrev Callback := Value → List Value → Except String Value

mutual

/-- The static type of an expression. -/
inductive Ty where
  | bool
  | int
  | float
  | string
  | list (element : Ty)
  | object (type : ObjectTy)

/-- A declared object type: its name, its fields and its methods, in order. -/
inductive ObjectTy where
  | mk (name : String) (fields : List (String × Ty)) (methods : List (String × Method))

/-- A method that templates may call. -/
inductive Method where
  | mk (params : List Ty) (returns : Ty) (call : Callback)

end

namespace Method

/-- The types of the parameters. -/
def params : Method → List Ty
  | mk params _ _ => params

/-- The type of the result. -/
def returns : Method → Ty
  | mk _ returns _ => returns

/-- What the host runs. -/
def call : Method → Callback
  | mk _ _ call => call

end Method

namespace ObjectTy

/-- An object type without members. -/
def empty (name : String) : ObjectTy := .mk name [] []

/-- The declared name. -/
def name : ObjectTy → String
  | mk name _ _ => name

/-- The declared fields. -/
def fields : ObjectTy → Entries Ty
  | mk _ fields _ => fields

/-- The declared methods. -/
def methods : ObjectTy → Entries Method
  | mk _ _ methods => methods

/-- Declares a field, or declares it again. -/
def withField (o : ObjectTy) (name : String) (type : Ty) : ObjectTy :=
  .mk o.name (o.fields.put name type) o.methods

/-- Declares a method, or declares it again. -/
def withMethod (o : ObjectTy) (name : String) (method : Method) : ObjectTy :=
  .mk o.name o.fields (o.methods.put name method)

/-- The type of a field. -/
def field? (o : ObjectTy) (name : String) : Option Ty := o.fields.get? name

/-- A method by name. -/
def method? (o : ObjectTy) (name : String) : Option Method := o.methods.get? name

/-- The members as messages list them: the fields, then the methods with `()`. -/
def memberNames (o : ObjectTy) : List String :=
  o.fields.names ++ o.methods.names.map fun method => method ++ "()"

end ObjectTy

namespace Ty

instance : Inhabited Ty := ⟨.bool⟩

/-- The type of the items, if this is a list type. -/
def element? : Ty → Option Ty
  | .list element => some element
  | _ => none

/-- The object type, if this is one. -/
def object? : Ty → Option ObjectTy
  | .object type => some type
  | _ => none

/-- The types whose values can be written into the output. -/
def isScalar : Ty → Bool
  | .bool | .int | .float | .string => true
  | .list _ | .object _ => false

/-- A type in writing. -/
def text : Ty → String
  | .bool => "Bool"
  | .int => "Int"
  | .float => "Float"
  | .string => "String"
  | .list element => "List<" ++ element.text ++ ">"
  | .object type => type.name

end Ty

mutual

/-- Whether two types are equal. -/
def Ty.same : Ty → Ty → Bool
  | .bool, .bool => true
  | .int, .int => true
  | .float, .float => true
  | .string, .string => true
  | .list a, .list b => a.same b
  | .object a, .object b => a.same b
  | _, _ => false
termination_by structural a => a

/-- Whether two object types are declared alike. -/
def ObjectTy.same : ObjectTy → ObjectTy → Bool
  | .mk name fields methods, .mk name' fields' methods' =>
    name == name' &&
    (fields.length == fields'.length && Ty.sameFields fields fields') &&
    (methods.length == methods'.length && Ty.sameMethods methods methods')
termination_by structural a => a

/-- Whether two methods have equal signatures. -/
def Method.same : Method → Method → Bool
  | .mk params returns _, .mk params' returns' _ => Ty.sameAll params params' && returns.same returns'
termination_by structural a => a

/-- Whether two lists have equal types in the same order. -/
def Ty.sameAll : List Ty → List Ty → Bool
  | [], [] => true
  | a :: as, b :: bs => a.same b && Ty.sameAll as bs
  | _, _ => false
termination_by structural as => as

/-- Whether every field of the first collection has an equal type in the second. -/
def Ty.sameFields : List (String × Ty) → List (String × Ty) → Bool
  | [], _ => true
  | (name, a) :: rest, fields =>
    (match Entries.get? name fields with
      | some b => a.same b
      | none => false) && Ty.sameFields rest fields
termination_by structural fields => fields

/-- Whether every method of the first collection has an equal signature in the second. -/
def Ty.sameMethods : List (String × Method) → List (String × Method) → Bool
  | [], _ => true
  | (name, a) :: rest, methods =>
    (match Entries.get? name methods with
      | some b => a.same b
      | none => false) && Ty.sameMethods rest methods
termination_by structural methods => methods

end

end TypedTemplate
