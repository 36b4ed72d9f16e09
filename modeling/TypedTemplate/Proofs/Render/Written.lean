/-
# `TypedTemplate.Proofs.Render.Written` — what a fragment writes, without the buffer

`Fragment.render` threads an output and a stack through the fragments.  Neither has to
be: a fragment's own contribution depends on the stack alone, and the stack it leaves is
the one it found.  `Fragment.written` is that contribution, a `Written`: some text, and
the reason to stop if there was one.  `Written.andThen` puts two of them together, so
that the second counts only if the first did not stop; it is associative and has
`nothing` on both sides.

The main statement is `Fragment.render_eq`: rendering appends what is written and hands
the stack back.  A loop opens one scope and sets it anew for each item; seen from
outside, each item is rendered with one more binding than there was before.
-/
import TypedTemplate.Fragment.Render
import TypedTemplate.Proofs.Except

namespace TypedTemplate

/-- Text, and the reason to stop after it if there is one. -/
structure Written (ε : Type) where
  text : String
  halt : Option ε

namespace Written

variable {ε α : Type}

/-- Nothing is written. -/
def nothing : Written ε := ⟨"", none⟩

/-- A text is written. -/
def ofText (text : String) : Written ε := ⟨text, none⟩

/-- Nothing is written, and this is the end. -/
def stopped (reason : ε) : Written ε := ⟨"", some reason⟩

/-- One after the other; the second only if the first has not stopped. -/
def andThen (a b : Written ε) : Written ε :=
  match a.halt with
  | none => ⟨a.text ++ b.text, b.halt⟩
  | some _ => a

/-- What is written with a result, if there is one. -/
def after (found : Except ε α) (use : α → Written ε) : Written ε :=
  match found with
  | .ok a => use a
  | .error reason => stopped reason

@[simp] theorem after_ok (a : α) (use : α → Written ε) : after (.ok a) use = use a := rfl

@[simp] theorem nothing_andThen (a : Written ε) : nothing.andThen a = a := by
  simp [nothing, andThen]

@[simp] theorem andThen_nothing (a : Written ε) : a.andThen nothing = a := by
  obtain ⟨text, halt⟩ := a
  cases halt <;> simp [nothing, andThen]

theorem andThen_assoc (a b c : Written ε) : (a.andThen b).andThen c = a.andThen (b.andThen c) := by
  obtain ⟨text, halt⟩ := a
  cases halt with
  | some e => rfl
  | none =>
      obtain ⟨text', halt'⟩ := b
      cases halt' <;> simp [andThen, String.append_assoc]

theorem ofText_append (s t : String) :
    (ofText (s ++ t) : Written ε) = (ofText s).andThen (ofText t) := rfl

@[simp] theorem ofText_empty : (ofText "" : Written ε) = nothing := rfl

/-- The outcome for an output that something was written after. -/
def outcome (w : Written Render.Error) (stack : Stack) (out : String) : Outcome :=
  ⟨out ++ w.text, stack, w.halt⟩

theorem outcome_andThen {a b : Written Render.Error} {stack : Stack} {out : String}
    {next : Stack → String → Outcome} (h : ∀ o, next stack o = b.outcome stack o) :
    (a.outcome stack out).andThen next = (a.andThen b).outcome stack out := by
  obtain ⟨text, halt⟩ := a
  cases halt with
  | none => simp [outcome, Outcome.andThen, andThen, h, String.append_assoc]
  | some e => rfl

theorem failed_eq (stack : Stack) (out : String) (e : Render.Error) :
    Outcome.failed stack out e = (stopped e).outcome stack out := by
  simp [Outcome.failed, stopped, outcome]

theorem withValue_eq {found : Except Render.Error Value} {stack : Stack} {out : String}
    {use : Value → Outcome} {w : Value → Written Render.Error}
    (h : ∀ v, use v = (w v).outcome stack out) :
    Outcome.withValue found stack out use = (after found w).outcome stack out := by
  cases found with
  | ok v => exact h v
  | error e => exact failed_eq stack out e

/-! ### Reasons to stop -/

/-- If there is a reason to stop, it has the property. -/
def Halts (E : ε → Prop) (w : Written ε) : Prop := ∀ e, w.halt = some e → E e

namespace Halts

variable {E : ε → Prop}

theorem nothing : (Written.nothing : Written ε).Halts E := by
  intro e h
  cases h

theorem ofText (text : String) : (Written.ofText text : Written ε).Halts E := by
  intro e h
  cases h

theorem stopped {reason : ε} (h : E reason) : (Written.stopped reason).Halts E := by
  intro e he
  cases he
  exact h

theorem andThen {a b : Written ε} (ha : a.Halts E) (hb : b.Halts E) : (a.andThen b).Halts E := by
  obtain ⟨text, halt⟩ := a
  cases halt with
  | none => exact hb
  | some reason => exact ha

theorem after {found : Except ε α} {use : α → Written ε} {P : α → Prop} (hf : found.Obeys P E)
    (hu : ∀ a, P a → (use a).Halts E) : (Written.after found use).Halts E := by
  cases found with
  | ok a => exact hu a hf
  | error reason => exact stopped hf

end Halts

end Written

/-! ## Scopes -/

namespace Stack

/-- A stack with one more binding. -/
def bind (s : Stack) (name : String) (value : Value) : Stack :=
  { s with scopes := (name, value) :: s.scopes }

theorem push_eq_bind (s : Stack) (name : String) : s.push name = s.bind name .null := rfl

@[simp] theorem bind_set (s : Stack) (name : String) (v w : Value) :
    (s.bind name v).set w = s.bind name w := rfl

@[simp] theorem bind_template (s : Stack) (name : String) (v : Value) :
    (s.bind name v).template = s.template := rfl

end Stack

theorem Text.write_eq (policy : Text.Escaping) (out text : String) :
    Text.write policy out text = out ++ Text.write policy "" text := by
  cases policy <;> simp [Text.write, Text.escapeHtml]

/-! ## What fragments write -/

namespace Fragment

/-- What a loop writes for its items, the items numbered from `index` on. -/
def writtenItems (head : Loop) (body : Stack → Written Render.Error) (stack : Stack) (index : Nat) :
    List Value → Written Render.Error
  | [] => .nothing
  | item :: items =>
    if item.conforms head.element then
      (body (stack.bind head.name item)).andThen (writtenItems head body stack (index + 1) items)
    else
      .stopped
        ⟨.itemShape index head.name head.element item.kind, stack.template, head.list.location⟩

/-- What a loop writes for a value. -/
def writtenLoop (head : Loop) (body : Stack → Written Render.Error) (stack : Stack) :
    Value → Written Render.Error
  | .list items => writtenItems head body stack 0 items
  | other => .stopped ⟨.notIterable other.kind, stack.template, head.list.location⟩

/-- What a condition writes for a value. -/
def writtenIf (condition : Term) (body : Stack → Written Render.Error) (stack : Stack) :
    Value → Written Render.Error
  | .bool true => body stack
  | .bool false => .nothing
  | other => .stopped ⟨.condition other.kind, stack.template, condition.location⟩

/-- What an attribute writes for a value. -/
def writtenAttribute (name : String) (t : Term) (boolean : Bool) (escaping : Text.Escaping)
    (stack : Stack) (value : Value) : Written Render.Error :=
  match attributeText name boolean escaping value with
  | .ok text => .ofText text
  | .error cause => .stopped ⟨cause, stack.template, t.location⟩

mutual

/-- What a fragment writes. -/
def written : Fragment → Stack → Written Render.Error
  | .static content, _ => .ofText content
  | .interpolation t escaping, stack =>
    .after (t.conforming stack) fun value => .ofText (Text.write escaping "" value.text)
  | .attribute name t boolean escaping, stack =>
    .after (t.conforming stack) (writtenAttribute name t boolean escaping stack)
  | .sequence parts, stack => writtenAll parts stack
  | .loop head body, stack =>
    .after (head.list.eval stack) (writtenLoop head (written body) stack)
  | .conditional condition body, stack =>
    .after (condition.eval stack) (writtenIf condition (written body) stack)
termination_by structural fragment => fragment

/-- What some fragments write one after another. -/
def writtenAll : List Fragment → Stack → Written Render.Error
  | [], _ => .nothing
  | fragment :: rest, stack => (written fragment stack).andThen (writtenAll rest stack)
termination_by structural fragments => fragments

end

theorem writtenAll_append (xs ys : List Fragment) (stack : Stack) :
    writtenAll (xs ++ ys) stack = (writtenAll xs stack).andThen (writtenAll ys stack) := by
  induction xs with
  | nil => simp [writtenAll]
  | cons x xs ih => simp only [List.cons_append, writtenAll, ih, Written.andThen_assoc]

/-! ## Rendering appends what is written -/

section Loops

variable {head : Loop} {body : Stack → String → Outcome} {w : Stack → Written Render.Error}

/-- The iterations leave their scope behind, set to the last item if there was one. -/
theorem iterate_eq (hbody : ∀ s out, body s out = (w s).outcome s out) (stack : Stack) :
    ∀ (items : List Value) (index : Nat) (last : Value) (out : String), ∃ v,
      iterate head body index items (stack.bind head.name last) out =
        (writtenItems head w stack index items).outcome (stack.bind head.name v) out
  | [], _, last, out => ⟨last, by simp [iterate, writtenItems, Written.nothing,
      Written.outcome, Outcome.done]⟩
  | item :: items, index, last, out => by
      by_cases hc : item.conforms head.element = true
      · simp only [iterate, writtenItems, if_pos hc, Stack.bind_set, hbody]
        cases hw : (w (stack.bind head.name item)).halt with
        | some e =>
            exact ⟨item, by simp [Written.outcome, Outcome.andThen, Written.andThen, hw]⟩
        | none =>
            obtain ⟨v, hv⟩ := iterate_eq hbody stack items (index + 1) item
              (out ++ (w (stack.bind head.name item)).text)
            refine ⟨v, ?_⟩
            simp only [Written.outcome, Outcome.andThen, Written.andThen, hw] at hv ⊢
            rw [hv, String.append_assoc]
      · exact ⟨last, by simp [iterate, writtenItems, hc, Written.failed_eq]⟩

theorem iterateOver_eq (hbody : ∀ s out, body s out = (w s).outcome s out) (stack : Stack)
    (out : String) (v : Value) :
    iterateOver head body stack out v = (writtenLoop head w stack v).outcome stack out := by
  cases v with
  | list items =>
      obtain ⟨last, h⟩ : ∃ v, iterate head body 0 items (stack.bind head.name .null) out = _ :=
        iterate_eq hbody stack items 0 .null out
      simp only [iterateOver, writtenLoop, Stack.push_eq_bind, h]
      rfl
  | _ => exact Written.failed_eq _ _ _

theorem onlyIf_eq (hbody : ∀ s out, body s out = (w s).outcome s out) (condition : Term)
    (stack : Stack) (out : String) (v : Value) :
    onlyIf condition body stack out v = (writtenIf condition w stack v).outcome stack out := by
  cases v with
  | bool b =>
      cases b with
      | true => exact hbody stack out
      | false => simp [onlyIf, writtenIf, Written.nothing, Written.outcome, Outcome.done]
  | _ => exact Written.failed_eq _ _ _

end Loops

mutual

theorem render_eq : ∀ (f : Fragment) (stack : Stack) (out : String),
    f.render stack out = (f.written stack).outcome stack out
  | .static content, stack, out => rfl
  | .interpolation t escaping, stack, out => by
      simp only [render, written]
      refine Written.withValue_eq ?_
      intro v
      rw [Text.write_eq]
      rfl
  | .attribute name t boolean escaping, stack, out => by
      simp only [render, written]
      refine Written.withValue_eq ?_
      intro v
      rw [writtenAttribute]
      cases attributeText name boolean escaping v with
      | ok text => rfl
      | error cause => exact Written.failed_eq _ _ _
  | .sequence parts, stack, out => by
      simp only [render, written]
      exact renderAll_eq parts stack out
  | .loop head body, stack, out => by
      simp only [render, written]
      exact Written.withValue_eq (iterateOver_eq (render_eq body) stack out)
  | .conditional condition body, stack, out => by
      simp only [render, written]
      exact Written.withValue_eq (onlyIf_eq (render_eq body) condition stack out)

theorem renderAll_eq : ∀ (fs : List Fragment) (stack : Stack) (out : String),
    renderAll fs stack out = (writtenAll fs stack).outcome stack out
  | [], stack, out => by
      simp [renderAll, writtenAll, Outcome.done, Written.nothing, Written.outcome]
  | f :: fs, stack, out => by
      simp only [renderAll, writtenAll, render_eq f]
      exact Written.outcome_andThen fun o => renderAll_eq fs stack o

end

/-- Rendering hands the stack back as it found it, also if it stops, in however many loops; so a
name means afterwards what it meant before. -/
theorem render_restores (f : Fragment) (stack : Stack) (out : String) :
    (f.render stack out).stack = stack ∧
      ∀ name, (f.render stack out).stack.lookup? name = stack.lookup? name := by
  have hstack : (f.render stack out).stack = stack := by
    rw [render_eq]
    rfl
  refine ⟨hstack, ?_⟩
  intro name
  rw [hstack]

end Fragment

end TypedTemplate
