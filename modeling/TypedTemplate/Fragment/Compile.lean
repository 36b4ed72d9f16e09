/-
# `TypedTemplate.Fragment.Compile` — from a tree to fragments

Static markup is written out again mark by mark; expressions are resolved in the
scope of the place where they stand, which grows by one binding inside each loop.
An element gives its pieces in the order in which they will be written, wrapped in
its condition and then in its loop.

A replaced body leaves nothing behind but is compiled all the same, so a fault in it
is found.
-/
import TypedTemplate.Fragment.Basic
import TypedTemplate.Fragment.Directives
import TypedTemplate.Fragment.Interpolation
import TypedTemplate.Markup.Write
import TypedTemplate.Text.Slice

namespace TypedTemplate

open Markup

/-- What is needed to compile any part of a template. -/
structure Compiler where
  config : Config
  source : Source

namespace Compiler

variable (c : Compiler)

/-! ## Expressions for a purpose -/

/-- Refuses a term whose value cannot be written. -/
def checkScalar (use : Expr.ScalarUse) (span : Span) (t : Term) : Except ExprFault Unit :=
  if t.type.isScalar then .ok () else refuse span (.notScalar use t.type)

/-- The text of a loop's list, for a message. -/
def listText (e : Excerpt) (span : Span) : String :=
  String.ofList ((Text.slice? e.chars ⟨span.start - e.offset, span.length⟩).getD e.chars)

/-- The loop that an attribute asks for. -/
def loopOf (scope : Scope) (a : Attribute) : Except ExprFault Loop := do
  let header ← LoopHeader.read a.excerpt
  let list ← header.list.resolve c.source scope
  match list.type.element? with
  | some element => return ⟨header.name, element, list⟩
  | none => refuse header.list.span (.notAList (listText a.excerpt header.list.span) list.type)

/-- The condition that an attribute asks for. -/
def conditionOf (scope : Scope) (a : Attribute) : Except ExprFault Term := do
  let t ← Term.read c.source scope a.excerpt
  if t.type.same .bool then return t
  else refuse a.valueSpan (.conditionType t.type)

/-! ## Text -/

/-- The pieces of one part of character data. -/
def partPieces (scope : Scope) : Interpolation.Part → Except ExprFault (List Fragment)
  | .plain cs => .ok [.static (String.ofList cs)]
  | .code e => do
    let t ← Term.read c.source scope e
    checkScalar .interpolation e.span t
    return [.interpolation t c.config.escaping]
  | .unterminated span => refuse span .unterminatedInterpolation

/-- The pieces of some parts of character data. -/
def partsPieces (scope : Scope) : List Interpolation.Part → Except ExprFault (List Fragment)
  | [] => .ok []
  | part :: parts => do
    let pieces ← c.partPieces scope part
    let more ← partsPieces scope parts
    return pieces ++ more

/-! ## Tags -/

/-- Marks as they are written. -/
def staticPieces (marks : List Mark) : List Fragment := marks.map fun mark => .static mark.write

/-- The piece of a dynamic attribute that does not control its element. -/
def dynamicAttribute (scope : Scope) (name : String) (a : Attribute) :
    Except ExprFault Fragment := do
  let t ← Term.read c.source scope a.excerpt
  let boolean := booleanAttributes.contains name
  if boolean then
    if !t.type.same .bool then
      refuse a.valueSpan (.booleanAttributeType name t.type)
  else checkScalar (.attributeValue name) a.valueSpan t
  return .attribute name t boolean c.config.escaping

/-- The pieces of an attribute; one that controls its element leaves none. -/
def attributePieces (scope : Scope) (a : Attribute) : Except ExprFault (List Fragment) :=
  if a.dynamic then
    match c.config.directive? a.name with
    | none => .ok []
    | some name =>
      if (Control.ofName? name).isSome then .ok []
      else return [← c.dynamicAttribute scope name a]
  else .ok (staticPieces a.marks)

/-- The pieces of some attributes. -/
def attributesPieces (scope : Scope) : List Attribute → Except ExprFault (List Fragment)
  | [] => .ok []
  | a :: rest => do
    let pieces ← c.attributePieces scope a
    let more ← attributesPieces scope rest
    return pieces ++ more

/-! ## Elements -/

/-- The body of a raw text element as it is written. -/
def rawPieces (children : List Node) : List Fragment :=
  children.filterMap fun
    | .text content _ => some (.static content)
    | _ => none

/-- The pieces between the tags of an element, given what its children compile to. -/
def bodyPieces (scope : Scope) (e : Element) (ds : Directives) (children : List Node)
    (compiled : Except ExprFault (List Fragment)) : Except ExprFault (List Fragment) :=
  match ds.content? c.config with
  | some (a, escaping) => do
    let t ← Term.read c.source scope a.excerpt
    checkScalar (.content a.name) a.valueSpan t
    if !isRawText e.name then
      let _ ← compiled
    return [.interpolation t escaping]
  | none => if isRawText e.name then .ok (rawPieces children) else compiled

/-- The pieces of an element after its attributes. -/
def restPieces (scope : Scope) (e : Element) (ds : Directives) (children : List Node)
    (compiled : Except ExprFault (List Fragment)) : Except ExprFault (List Fragment) :=
  if e.selfClosed then
    match ds.content? c.config with
    | some (a, _) => refuse a.span (.contentOfSelfClosed a.name e.name)
    | none => .ok (staticPieces [.tagSelfClose])
  else do
    let body ← c.bodyPieces scope e ds children compiled
    return staticPieces [.tagEnd] ++ body ++ staticPieces e.closeMarks

/-- The pieces of an element, its loop and condition apart. -/
def elementPieces (scope : Scope) (e : Element) (ds : Directives) (children : List Node)
    (compiled : Except ExprFault (List Fragment)) : Except ExprFault (List Fragment) := do
  let attributes ← c.attributesPieces scope e.attributes
  let rest ← c.restPieces scope e ds children compiled
  return staticPieces [.openTag e.name] ++ attributes ++ rest

/-- The pieces of an element inside its loop, if it has one. -/
def conditionalPieces (scope : Scope) (e : Element) (ds : Directives) (children : List Node)
    (compiled : Except ExprFault (List Fragment)) : Except ExprFault (List Fragment) :=
  match ds.condition with
  | none => c.elementPieces scope e ds children compiled
  | some a => do
    let condition ← c.conditionOf scope a
    let pieces ← c.elementPieces scope e ds children compiled
    return [.conditional condition (.ofPieces pieces)]

mutual

/-- The pieces of a node. -/
def nodePieces (scope : Scope) : Node → Except ExprFault (List Fragment)
  | .text content span => c.partsPieces scope (Interpolation.parts span.start content.toList)
  | .comment content _ => .ok (if c.config.stripComments then [] else [.static content])
  | .element e children => do
    let ds ← Directives.ofElement c.config e
    match ds.loop with
    | none => c.conditionalPieces scope e ds children (nodesPieces scope children)
    | some a => do
      let head ← c.loopOf scope a
      let inner := scope.bind head.name head.element
      let pieces ← c.conditionalPieces inner e ds children (nodesPieces inner children)
      return [.loop head (.ofPieces pieces)]
termination_by structural node => node

/-- The pieces of some nodes. -/
def nodesPieces (scope : Scope) : List Node → Except ExprFault (List Fragment)
  | [] => .ok []
  | node :: rest => do
    let pieces ← nodePieces scope node
    let more ← nodesPieces scope rest
    return pieces ++ more
termination_by structural nodes => nodes

end

/-- The fragment of a whole document. -/
def compile (root : ObjectTy) (document : Document) : Except ExprFault Fragment := do
  return .ofPieces (← c.nodesPieces { root := root } document.children)

end Compiler

end TypedTemplate
