/-
# `TypedTemplate.Proofs.Render.Record` — a rendering with a record of its steps

`Fragment.record` renders a fragment and keeps a record of it: every fragment that is
rendered on the way, with the stack it is rendered on and the names that the loops around
it bind (`Visit`).  It does with the output and the stack what rendering does, step by step
(`Fragment.record_outcome`), opening and closing scopes included, so what holds of every
visit holds at every point of a rendering.

What a fragment writes itself comes in pieces, markup on the one hand and texts of values on
the other (`Chunk`).  The pieces of all visits, one after another, are the output
(`Fragment.record_out`), also if the rendering stops early.
-/
import TypedTemplate.Proofs.Render.Written
import TypedTemplate.Template

namespace TypedTemplate

/-! ## What is written -/

/-- A piece of output. -/
inductive Chunk where
  /-- Text of the template. -/
  | markup (text : String)
  /-- The text of a value that a term was found to have. -/
  | value (term : Term) (value : Value) (escaping : Text.Escaping)

/-- A piece of output in writing. -/
def Chunk.text : Chunk → String
  | .markup text => text
  | .value _ v escaping => Text.write escaping "" v.text

/-- Some pieces of output in writing. -/
def Chunk.write (chunks : List Chunk) : String := String.join (chunks.map Chunk.text)

@[simp] theorem Chunk.write_nil : Chunk.write [] = "" := rfl

theorem Chunk.write_append (chunks more : List Chunk) :
    Chunk.write (chunks ++ more) = Chunk.write chunks ++ Chunk.write more := by
  simp [Chunk.write, String.join_append]

theorem Chunk.write_flatMap {α : Type} (f : α → List Chunk) (xs : List α) :
    Chunk.write (xs.flatMap f) = String.join (xs.map fun x => Chunk.write (f x)) := by
  induction xs with
  | nil => rfl
  | cons x xs ih =>
      rw [List.flatMap_cons, Chunk.write_append, ih, List.map_cons, String.join_cons]

namespace Fragment

/-- The pieces of an attribute for some value: a boolean attribute writes no value. -/
def attributeChunks (name : String) (t : Term) (boolean : Bool) (escaping : Text.Escaping) :
    Value → List Chunk
  | .null => []
  | value =>
    if boolean then
      match value with
      | .bool true => [.markup (" " ++ name)]
      | _ => []
    else [.markup (" " ++ name ++ "=\""), .value t value escaping, .markup "\""]

/-- The pieces that a fragment writes itself; what is in it writes its own. -/
def chunks (stack : Stack) : Fragment → List Chunk
  | .static content => [.markup content]
  | .interpolation t escaping =>
    match t.conforming stack with
    | .ok value => [.value t value escaping]
    | .error _ => []
  | .attribute name t boolean escaping =>
    match t.conforming stack with
    | .ok value => attributeChunks name t boolean escaping value
    | .error _ => []
  | .sequence _ => []
  | .loop _ _ => []
  | .conditional _ _ => []

end Fragment

/-! ## The record -/

/-- A fragment that is rendered. -/
structure Visit where
  /-- The names that the loops around the fragment bind, with the types of their items. -/
  scope : Scope
  fragment : Fragment
  stack : Stack

/-- The pieces that the fragment writes. -/
def Visit.chunks (visit : Visit) : List Chunk := visit.fragment.chunks visit.stack

/-- An outcome, and the fragments that were rendered for it, in their order. -/
structure Recorded where
  visits : List Visit
  outcome : Outcome

namespace Recorded

/-- What comes next, unless something went wrong. -/
def andThen (r : Recorded) (next : Stack → String → Recorded) : Recorded :=
  match r.outcome.error with
  | none =>
    ⟨r.visits ++ (next r.outcome.stack r.outcome.out).visits,
      (next r.outcome.stack r.outcome.out).outcome⟩
  | some _ => r

/-- What is done with a value that may not have been found. -/
def withValue (found : Except Render.Error Value) (stack : Stack) (out : String)
    (use : Value → Recorded) : Recorded :=
  match found with
  | .ok value => use value
  | .error error => ⟨[], .failed stack out error⟩

/-- One fragment more, before the others. -/
def after (visit : Visit) (r : Recorded) : Recorded := ⟨visit :: r.visits, r.outcome⟩

theorem outcome_andThen (r : Recorded) (next : Stack → String → Recorded) :
    (r.andThen next).outcome = r.outcome.andThen fun stack out => (next stack out).outcome := by
  obtain ⟨visits, out, stack, error⟩ := r
  cases error <;> rfl

theorem outcome_withValue (found : Except Render.Error Value) (stack : Stack) (out : String)
    (use : Value → Recorded) : (withValue found stack out use).outcome =
      .withValue found stack out fun value => (use value).outcome := by
  cases found <;> rfl

theorem mem_andThen {r : Recorded} {next : Stack → String → Recorded} {visit : Visit}
    (h : visit ∈ (r.andThen next).visits) : visit ∈ r.visits ∨
      r.outcome.error = none ∧ visit ∈ (next r.outcome.stack r.outcome.out).visits := by
  obtain ⟨visits, out, stack, error⟩ := r
  cases error with
  | none => exact (List.mem_append.1 h).imp id fun h => ⟨rfl, h⟩
  | some error => exact Or.inl h

end Recorded

namespace Fragment

/-- `iterate` with a record. -/
def recordItems (head : Loop) (body : Stack → String → Recorded) (index : Nat) :
    List Value → Stack → String → Recorded
  | [], stack, out => ⟨[], .done stack out⟩
  | item :: items, stack, out =>
    if item.conforms head.element then
      (body (stack.set item) out).andThen (recordItems head body (index + 1) items)
    else
      ⟨[], .failed stack out
        ⟨.itemShape index head.name head.element item.kind, stack.template, head.list.location⟩⟩

/-- `iterateOver` with a record. -/
def recordOver (head : Loop) (body : Stack → String → Recorded) (stack : Stack) (out : String) :
    Value → Recorded
  | .list items =>
    let r := recordItems head body 0 items (stack.push head.name) out
    ⟨r.visits, { r.outcome with stack := r.outcome.stack.pop }⟩
  | other => ⟨[], .failed stack out ⟨.notIterable other.kind, stack.template, head.list.location⟩⟩

/-- `onlyIf` with a record. -/
def recordIf (condition : Term) (body : Stack → String → Recorded) (stack : Stack) (out : String) :
    Value → Recorded
  | .bool true => body stack out
  | .bool false => ⟨[], .done stack out⟩
  | other => ⟨[], .failed stack out ⟨.condition other.kind, stack.template, condition.location⟩⟩

mutual

/-- `render` with a record. -/
def record : Fragment → Scope → Stack → String → Recorded
  | .static content, scope, stack, out =>
    ⟨[⟨scope, .static content, stack⟩], render (.static content) stack out⟩
  | .interpolation t escaping, scope, stack, out =>
    ⟨[⟨scope, .interpolation t escaping, stack⟩], render (.interpolation t escaping) stack out⟩
  | .attribute name t boolean escaping, scope, stack, out =>
    ⟨[⟨scope, .attribute name t boolean escaping, stack⟩],
      render (.attribute name t boolean escaping) stack out⟩
  | .sequence parts, scope, stack, out =>
    .after ⟨scope, .sequence parts, stack⟩ (recordAll parts scope stack out)
  | .loop head body, scope, stack, out =>
    .after ⟨scope, .loop head body, stack⟩ <|
      .withValue (head.list.eval stack) stack out
        (recordOver head (record body (scope.bind head.name head.element)) stack out)
  | .conditional condition body, scope, stack, out =>
    .after ⟨scope, .conditional condition body, stack⟩ <|
      .withValue (condition.eval stack) stack out
        (recordIf condition (record body scope) stack out)
termination_by structural fragment => fragment

/-- `renderAll` with a record. -/
def recordAll : List Fragment → Scope → Stack → String → Recorded
  | [], _, stack, out => ⟨[], .done stack out⟩
  | fragment :: rest, scope, stack, out =>
    (record fragment scope stack out).andThen (recordAll rest scope)
termination_by structural fragments => fragments

end

/-! ## The record changes nothing -/

section

variable {head : Loop} {body : Stack → String → Outcome} {r : Stack → String → Recorded}

theorem recordItems_outcome (hbody : ∀ s out, (r s out).outcome = body s out) :
    ∀ (items : List Value) (index : Nat) (stack : Stack) (out : String),
      (recordItems head r index items stack out).outcome = iterate head body index items stack out
  | [], _, _, _ => rfl
  | item :: items, index, stack, out => by
      rw [recordItems, iterate]
      split
      · rw [Recorded.outcome_andThen, hbody]
        congr 1
        funext s o
        exact recordItems_outcome hbody items (index + 1) s o
      · rfl

theorem recordOver_outcome (hbody : ∀ s out, (r s out).outcome = body s out) (stack : Stack)
    (out : String) (v : Value) :
    (recordOver head r stack out v).outcome = iterateOver head body stack out v := by
  cases v with
  | list items => simp only [recordOver, iterateOver, recordItems_outcome hbody]
  | _ => rfl

theorem recordIf_outcome (hbody : ∀ s out, (r s out).outcome = body s out) (condition : Term)
    (stack : Stack) (out : String) (v : Value) :
    (recordIf condition r stack out v).outcome = onlyIf condition body stack out v := by
  cases v with
  | bool b =>
      cases b with
      | true => exact hbody stack out
      | false => rfl
  | _ => rfl

end

mutual

theorem record_outcome : ∀ (f : Fragment) (scope : Scope) (stack : Stack) (out : String),
    (f.record scope stack out).outcome = f.render stack out
  | .static _, _, _, _ => rfl
  | .interpolation _ _, _, _, _ => rfl
  | .attribute _ _ _ _, _, _, _ => rfl
  | .sequence parts, scope, stack, out => by
      rw [record, render]
      exact recordAll_outcome parts scope stack out
  | .loop head body, scope, stack, out => by
      rw [record, render, Recorded.after, Recorded.outcome_withValue]
      congr 1
      funext v
      exact recordOver_outcome (record_outcome body _) stack out v
  | .conditional condition body, scope, stack, out => by
      rw [record, render, Recorded.after, Recorded.outcome_withValue]
      congr 1
      funext v
      exact recordIf_outcome (record_outcome body _) condition stack out v

theorem recordAll_outcome : ∀ (fs : List Fragment) (scope : Scope) (stack : Stack) (out : String),
    (recordAll fs scope stack out).outcome = renderAll fs stack out
  | [], _, _, _ => rfl
  | f :: fs, scope, stack, out => by
      rw [recordAll, renderAll, Recorded.outcome_andThen, record_outcome f scope stack out]
      congr 1
      funext s o
      exact recordAll_outcome fs scope s o

end

theorem record_stack (f : Fragment) (scope : Scope) (s : Stack) (out : String) :
    (f.record scope s out).outcome.stack = s := by
  rw [record_outcome, render_eq]
  rfl

end Fragment

/-! ## The pieces are the output -/

/-- The output is what there was before, and the pieces of the visits. -/
def Recorded.Writes (r : Recorded) (out : String) : Prop :=
  r.outcome.out = out ++ Chunk.write (r.visits.flatMap Visit.chunks)

namespace Recorded.Writes

variable {stack : Stack} {out : String}

theorem quiet {outcome : Outcome} (h : outcome.out = out) : Writes ⟨[], outcome⟩ out := by
  simp [Writes, h]

theorem one {visit : Visit} {outcome : Outcome}
    (h : outcome.out = out ++ Chunk.write visit.chunks) : Writes ⟨[visit], outcome⟩ out := by
  simp [Writes, h]

/-- A fragment that writes nothing itself. -/
theorem after {visit : Visit} {r : Recorded} (hvisit : visit.chunks = []) (h : r.Writes out) :
    (r.after visit).Writes out := by
  rw [Writes] at h
  simp [Writes, Recorded.after, hvisit, h]

theorem andThen {r : Recorded} {next : Stack → String → Recorded} (hr : r.Writes out)
    (hnext : ∀ s o, (next s o).Writes o) : (r.andThen next).Writes out := by
  obtain ⟨visits, out', stack, error⟩ := r
  cases error with
  | some error => exact hr
  | none =>
      have h := hnext stack out'
      rw [Writes] at h hr ⊢
      simp only [Recorded.andThen, List.flatMap_append, Chunk.write_append]
      rw [h, ← String.append_assoc, ← hr]

theorem withValue {found : Except Render.Error Value} {use : Value → Recorded}
    (huse : ∀ v, (use v).Writes out) : (withValue found stack out use).Writes out := by
  cases found with
  | ok v => exact huse v
  | error e => exact quiet rfl

end Recorded.Writes

namespace Fragment

open Recorded (Writes)

/-- The pieces of an attribute are its text, and there are none where it has no text. -/
theorem attributeText_eq (name : String) (t : Term) (boolean : Bool) (escaping : Text.Escaping)
    (v : Value) : attributeText name boolean escaping v =
        .ok (Chunk.write (attributeChunks name t boolean escaping v)) ∨
      attributeChunks name t boolean escaping v = [] ∧
        ∃ cause, attributeText name boolean escaping v = .error cause := by
  cases boolean with
  | true =>
      cases v with
      | null => exact Or.inl rfl
      | bool b =>
          cases b with
          | true => simp [attributeText, attributeChunks, Chunk.write, Chunk.text]
          | false => exact Or.inl rfl
      | _ => exact Or.inr ⟨rfl, _, rfl⟩
  | false =>
      refine Or.inl ?_
      cases v <;>
        simp [attributeText, attributeChunks, Chunk.write, Chunk.text,
          Text.write_eq escaping (" " ++ (name ++ "=\"")), String.append_assoc]

/-- A fragment that nothing is in writes its own pieces. -/
theorem render_interpolation_out (t : Term) (escaping : Text.Escaping) (stack : Stack)
    (out : String) : (render (.interpolation t escaping) stack out).out =
      out ++ Chunk.write (chunks stack (.interpolation t escaping)) := by
  rw [render, chunks]
  cases t.conforming stack with
  | ok v => simp [Outcome.withValue, Outcome.done, Chunk.write, Chunk.text, Text.write_eq _ out]
  | error e => simp [Outcome.withValue, Outcome.failed]

theorem render_attribute_out (name : String) (t : Term) (boolean : Bool) (escaping : Text.Escaping)
    (stack : Stack) (out : String) : (render (.attribute name t boolean escaping) stack out).out =
      out ++ Chunk.write (chunks stack (.attribute name t boolean escaping)) := by
  rw [render, chunks]
  cases t.conforming stack with
  | error e => simp [Outcome.withValue, Outcome.failed]
  | ok v =>
      simp only [Outcome.withValue]
      rcases attributeText_eq name t boolean escaping v with h | ⟨hnone, cause, h⟩
      · rw [h]
        rfl
      · rw [h, hnone]
        simp [Outcome.failed]

theorem recordItems_writes {head : Loop} {r : Stack → String → Recorded}
    (hbody : ∀ s o, (r s o).Writes o) :
    ∀ (items : List Value) (index : Nat) (stack : Stack) (out : String),
      (recordItems head r index items stack out).Writes out
  | [], _, _, _ => .quiet rfl
  | item :: items, index, stack, out => by
      rw [recordItems]
      split
      · exact (hbody _ _).andThen fun s o => recordItems_writes hbody items (index + 1) s o
      · exact .quiet rfl

mutual

theorem record_writes : ∀ (f : Fragment) (scope : Scope) (stack : Stack) (out : String),
    (f.record scope stack out).Writes out
  | .static content, scope, stack, out => .one (by
      simp [render, Outcome.done, Visit.chunks, chunks, Chunk.write, Chunk.text])
  | .interpolation t escaping, scope, stack, out =>
      .one (render_interpolation_out t escaping stack out)
  | .attribute name t boolean escaping, scope, stack, out =>
      .one (render_attribute_out name t boolean escaping stack out)
  | .sequence parts, scope, stack, out => .after rfl (recordAll_writes parts scope stack out)
  | .loop head body, scope, stack, out => by
      refine .after rfl (.withValue fun v => ?_)
      cases v with
      | list items => exact recordItems_writes (record_writes body _) items 0 _ out
      | _ => exact .quiet rfl
  | .conditional condition body, scope, stack, out => by
      refine .after rfl (.withValue fun v => ?_)
      cases v with
      | bool b =>
          cases b with
          | true => exact record_writes body scope stack out
          | false => exact .quiet rfl
      | _ => exact .quiet rfl

theorem recordAll_writes : ∀ (fs : List Fragment) (scope : Scope) (stack : Stack) (out : String),
    (recordAll fs scope stack out).Writes out
  | [], _, _, _ => .quiet rfl
  | f :: fs, scope, stack, out => by
      rw [recordAll]
      exact (record_writes f scope stack out).andThen fun s o => recordAll_writes fs scope s o

end

/-- The output of a rendering is made of the pieces of the fragments that are rendered. -/
theorem record_out (f : Fragment) (scope : Scope) (stack : Stack) (out : String) :
    (f.render stack out).out =
      out ++ Chunk.write ((f.record scope stack out).visits.flatMap Visit.chunks) := by
  rw [← record_outcome f scope stack out]
  exact record_writes f scope stack out

end Fragment

/-! ## Templates -/

namespace Template

/-- A rendering with a record of its steps. -/
def record (t : Template) (out : String) (context : Value) : Recorded :=
  t.fragment.record ⟨t.context, []⟩ ⟨t.name, context, []⟩ out

/-- The fragments that are rendered, in their order. -/
def visits (t : Template) (out : String) (context : Value) : List Visit :=
  (t.record out context).visits

/-- The pieces of output that a rendering adds. -/
def chunks (t : Template) (out : String) (context : Value) : List Chunk :=
  (t.visits out context).flatMap Visit.chunks

/-- The rendering is the one that goes without a record. -/
theorem record_outcome (t : Template) (out : String) (context : Value) :
    (t.record out context).outcome = t.renderTo out context :=
  Fragment.record_outcome _ _ _ _

theorem renderTo_out (t : Template) (out : String) (context : Value) :
    (t.renderTo out context).out = out ++ Chunk.write (t.chunks out context) :=
  Fragment.record_out _ _ _ _

end Template

end TypedTemplate
