/-
# `TypedTemplate.Proofs.Render.Whole` — rendering appends whole pieces

Text, values and attributes are the leaves of a fragment: nothing else writes.  A leaf finds
what it writes before it writes any of it, so it is written whole or it fails and leaves the output
as it was (`Fragment.leaf_whole`).  A rendering therefore visits leaves that are complete, and stops
at the first fragment that raises an error, which is a leaf, a loop or a condition
(`Fragment.Raises`); a loop that gets no list, or an item that does not fit, raises it itself.

`Whole` says this of a list of visits, in the order in which they are made.  It is kept by
whatever is visited before (`Whole.prepend`), so it goes through sequences and through the items
of a loop.  Only there the fragment at fault is not the last one visited: a loop is visited before
its items, and the item that it refuses may come after others.  So `Raises` also says what a
fragment visits before it raises its error: these items and nothing else.
-/
import TypedTemplate.Proofs.Render.Record

namespace TypedTemplate

namespace Fragment

/-- A fragment that nothing is in. -/
def isLeaf : Fragment → Bool
  | .static _ | .interpolation _ _ | .attribute _ _ _ _ => true
  | .sequence _ | .loop _ _ | .conditional _ _ => false

/-- The error of a fragment itself, not of what is in it, and what is visited in the fragment
before: only a loop that refuses an item has rendered something, the items that come before. -/
inductive Raises (scope : Scope) (s : Stack) (e : Render.Error) : Fragment → List Visit → Prop
  /-- A leaf that fails writes nothing. -/
  | leaf {f : Fragment} : f.isLeaf = true → (∀ out, f.render s out = .failed s out e) →
      Raises scope s e f []
  | list {head : Loop} {body : Fragment} : head.list.eval s = .error e →
      Raises scope s e (.loop head body) []
  | notIterable {head : Loop} {body : Fragment} {value : Value} :
      head.list.eval s = .ok value → (∀ items, value ≠ .list items) →
      e = ⟨.notIterable value.kind, s.template, head.list.location⟩ →
      Raises scope s e (.loop head body) []
  | item {head : Loop} {body : Fragment} {before after : List Value} {item : Value}
      {out : String} {inside : List Visit} {outcome : Outcome} :
      head.list.eval s = .ok (.list (before ++ item :: after)) →
      recordItems head (body.record (scope.bind head.name head.element)) 0 before
        (s.push head.name) out = ⟨inside, outcome⟩ →
      outcome.error = none → item.conforms head.element = false →
      e = ⟨.itemShape before.length head.name head.element item.kind, s.template,
        head.list.location⟩ →
      Raises scope s e (.loop head body) inside
  | condition {condition : Term} {body : Fragment} : condition.eval s = .error e →
      Raises scope s e (.conditional condition body) []
  | notBool {condition : Term} {body : Fragment} {value : Value} :
      condition.eval s = .ok value → (∀ b, value ≠ .bool b) →
      e = ⟨.condition value.kind, s.template, condition.location⟩ →
      Raises scope s e (.conditional condition body) []

/-- The pieces of a leaf are what it adds to the output. -/
theorem render_leaf_out {f : Fragment} (hf : f.isLeaf = true) (s : Stack) (out : String) :
    (f.render s out).out = out ++ Chunk.write (f.chunks s) := by
  cases f with
  | static content => simp [render, Outcome.done, chunks, Chunk.write, Chunk.text]
  | interpolation t escaping => exact render_interpolation_out t escaping s out
  | «attribute» name t boolean escaping => exact render_attribute_out name t boolean escaping s out
  | sequence parts => cases hf
  | loop head body => cases hf
  | conditional condition body => cases hf

/-- A leaf writes its pieces, or it fails and writes nothing. -/
theorem leaf_whole {f : Fragment} (hf : f.isLeaf = true) (scope : Scope) (s : Stack) :
    (∀ out, f.render s out = .done s (out ++ Chunk.write (f.chunks s))) ∨
      ∃ e, f.Raises scope s e [] := by
  cases f with
  | static content =>
      refine Or.inl fun out => ?_
      simp [render, chunks, Chunk.write, Chunk.text]
  | interpolation t escaping =>
      cases ht : t.conforming s with
      | ok v =>
          refine Or.inl fun out => ?_
          simp [render, chunks, ht, Outcome.withValue, Chunk.write, Chunk.text,
            Text.write_eq _ out]
      | error e =>
          refine Or.inr ⟨e, .leaf rfl fun out => ?_⟩
          simp only [render, ht, Outcome.withValue]
  | «attribute» name t boolean escaping =>
      cases ht : t.conforming s with
      | error e =>
          refine Or.inr ⟨e, .leaf rfl fun out => ?_⟩
          simp only [render, ht, Outcome.withValue]
      | ok v =>
          rcases attributeText_eq name t boolean escaping v with h | ⟨-, cause, h⟩
          · refine Or.inl fun out => ?_
            simp only [render, chunks, ht, Outcome.withValue, h]
          · refine Or.inr ⟨⟨cause, s.template, t.location⟩, .leaf rfl fun out => ?_⟩
            simp only [render, ht, Outcome.withValue, h]
  | sequence parts => cases hf
  | loop head body => cases hf
  | conditional condition body => cases hf

end Fragment

namespace Visit

/-- The text that the fragment writes itself. -/
def text (v : Visit) : String := Chunk.write v.chunks

/-- A leaf that writes all of its text; what is no leaf has none. -/
def Complete (v : Visit) : Prop :=
  v.fragment.isLeaf = true ∧
      (∀ out, v.fragment.render v.stack out = .done v.stack (out ++ v.text)) ∨
    v.fragment.isLeaf = false ∧ v.text = ""

theorem complete_of_not_leaf {v : Visit} (h : v.fragment.isLeaf = false) : v.Complete := by
  obtain ⟨scope, f, s⟩ := v
  cases f with
  | static _ => cases h
  | interpolation _ _ => cases h
  | «attribute» _ _ _ _ => cases h
  | sequence _ => exact Or.inr ⟨rfl, rfl⟩
  | loop _ _ => exact Or.inr ⟨rfl, rfl⟩
  | conditional _ _ => exact Or.inr ⟨rfl, rfl⟩

end Visit

/-- Visits that are complete, up to the one that raises the error if there is one; after that one
come only those that it makes itself before the error. -/
inductive Whole : List Visit → Option Render.Error → Prop
  | done {visits : List Visit} : (∀ v ∈ visits, v.Complete) → Whole visits none
  | stopped {before inside : List Visit} {v : Visit} {e : Render.Error} :
      v.fragment.Raises v.scope v.stack e inside → (∀ u ∈ before ++ inside, u.Complete) →
      Whole (before ++ v :: inside) (some e)

/-- A record of whole visits. -/
def Recorded.Whole (r : Recorded) : Prop := TypedTemplate.Whole r.visits r.outcome.error

namespace Whole

theorem complete {visits : List Visit} (h : Whole visits none) : ∀ v ∈ visits, v.Complete := by
  cases h with
  | done hvisits => exact hvisits

theorem at_error {visits : List Visit} {e : Render.Error} (h : Whole visits (some e)) :
    ∃ before v inside, visits = before ++ v :: inside ∧
      v.fragment.Raises v.scope v.stack e inside ∧ ∀ u ∈ before ++ inside, u.Complete := by
  cases h with
  | stopped hraises hcomplete => exact ⟨_, _, _, rfl, hraises, hcomplete⟩

theorem prepend {visits more : List Visit} {error : Option Render.Error}
    (hvisits : ∀ v ∈ visits, v.Complete) (h : Whole more error) :
    Whole (visits ++ more) error := by
  cases h with
  | done hmore =>
      refine .done fun v hv => ?_
      exact (List.mem_append.1 hv).elim (hvisits v) (hmore v)
  | stopped hraises hcomplete =>
      rw [← List.append_assoc]
      refine .stopped hraises fun u hu => ?_
      rw [List.append_assoc] at hu
      exact (List.mem_append.1 hu).elim (hvisits u) (hcomplete u)

/-- The fragment that is visited first raises the error. -/
theorem raised {v : Visit} {inside : List Visit} {e : Render.Error}
    (h : v.fragment.Raises v.scope v.stack e inside)
    (hcomplete : ∀ u ∈ inside, u.Complete) : Whole (v :: inside) (some e) :=
  @stopped [] inside v e h hcomplete

end Whole

namespace Recorded

theorem andThen_of_some {r : Recorded} {next : Stack → String → Recorded} {e : Render.Error}
    (h : r.outcome.error = some e) : r.andThen next = r := by
  rw [andThen, h]

theorem andThen_of_none {r : Recorded} {next : Stack → String → Recorded}
    (h : r.outcome.error = none) : r.andThen next =
      ⟨r.visits ++ (next r.outcome.stack r.outcome.out).visits,
        (next r.outcome.stack r.outcome.out).outcome⟩ := by
  rw [andThen, h]

theorem andThen_assoc (r : Recorded) (f g : Stack → String → Recorded) :
    (r.andThen f).andThen g = r.andThen fun s o => (f s o).andThen g := by
  cases h : r.outcome.error with
  | some e => rw [andThen_of_some h, andThen_of_some h, andThen_of_some h]
  | none =>
      rw [andThen_of_none h, andThen_of_none h]
      cases hf : (f r.outcome.stack r.outcome.out).outcome.error with
      | some e =>
          rw [andThen_of_some hf]
          exact andThen_of_some hf
      | none =>
          rw [andThen_of_none hf, ← List.append_assoc]
          exact andThen_of_none hf

namespace Whole

theorem complete {r : Recorded} (hr : r.Whole) (h : r.outcome.error = none) :
    ∀ v ∈ r.visits, v.Complete := by
  rw [Recorded.Whole, h] at hr
  exact hr.complete

theorem andThen {r : Recorded} {next : Stack → String → Recorded} (hr : r.Whole)
    (hnext : ∀ s out, (next s out).Whole) : (r.andThen next).Whole := by
  cases h : r.outcome.error with
  | some e =>
      rw [andThen_of_some h]
      exact hr
  | none =>
      rw [andThen_of_none h]
      exact (hnext _ _).prepend (hr.complete h)

theorem after {r : Recorded} {v : Visit} (h : v.fragment.isLeaf = false) (hr : r.Whole) :
    (r.after v).Whole :=
  TypedTemplate.Whole.prepend
    (List.forall_mem_singleton.2 (Visit.complete_of_not_leaf h)) hr

end Whole

end Recorded

namespace Fragment

section Loops

variable {head : Loop} {r : Stack → String → Recorded}

/-- Some items and others after them: the others are rendered as the rest, unless the ones stop. -/
theorem recordItems_append (items : List Value) :
    ∀ (before : List Value) (index : Nat) (s : Stack) (out : String),
      recordItems head r index (before ++ items) s out =
        (recordItems head r index before s out).andThen
          (recordItems head r (index + before.length) items)
  | [], _, _, _ => rfl
  | item :: before, index, s, out => by
      rw [List.cons_append, recordItems, recordItems]
      split
      · rw [Recorded.andThen_assoc, List.length_cons, ← Nat.add_assoc, Nat.add_right_comm]
        congr 1
        funext s o
        exact recordItems_append items before (index + 1) s o
      · rfl

variable {body : Fragment} {scope : Scope} {s : Stack}

/-- The items that a loop takes are rendered whole. -/
theorem recordItems_whole (hbody : ∀ s out, (r s out).Whole) :
    ∀ (items : List Value) (index : Nat) (s : Stack) (out : String),
      (∀ item ∈ items, item.conforms head.element = true) →
      (recordItems head r index items s out).Whole
  | [], _, _, _, _ => .done (List.forall_mem_nil _)
  | item :: items, index, s, out, hitems => by
      obtain ⟨hitem, hitems⟩ := List.forall_mem_cons.1 hitems
      rw [recordItems, if_pos hitem]
      exact (hbody _ out).andThen fun s o => recordItems_whole hbody items (index + 1) s o hitems

/-- What is rendered for the items leaves the template in place. -/
theorem recordItems_template {items : List Value} {index : Nat} {out : String}
    {visits : List Visit} {outcome : Outcome}
    (h : recordItems head (body.record scope) index items (s.push head.name) out =
      ⟨visits, outcome⟩) : outcome.stack.template = s.template := by
  have houtcome : outcome = iterate head body.render index items (s.push head.name) out := by
    rw [← recordItems_outcome (record_outcome body scope), h]
  obtain ⟨last, hlast⟩ :
      ∃ v, iterate head body.render index items (s.bind head.name .null) out = _ :=
    iterate_eq body.render_eq s items index .null out
  rw [houtcome, Stack.push_eq_bind, hlast]
  rfl

/-- A loop is whole: it renders all its items, or it stops at the first that it refuses. -/
theorem recordOver_whole {items : List Value} {out : String}
    (hlist : head.list.eval s = .ok (.list items))
    (hbody : ∀ s o, (body.record (scope.bind head.name head.element) s o).Whole) :
    ((recordOver head (body.record (scope.bind head.name head.element)) s out
      (.list items)).after ⟨scope, .loop head body, s⟩).Whole := by
  cases hfind : items.find? fun item => !item.conforms head.element with
  | none =>
      refine Recorded.Whole.after rfl (recordItems_whole hbody items 0 (s.push head.name) out ?_)
      intro item hitem
      simpa using List.find?_eq_none.1 hfind item hitem
  | some item =>
      obtain ⟨hitem, before, after, rfl, hbefore⟩ := List.find?_eq_some_iff_append.1 hfind
      have hrefused : item.conforms head.element = false := by simpa using hitem
      have hrows := recordItems_whole hbody before 0 (s.push head.name) out (by simpa using hbefore)
      rw [recordOver, recordItems_append]
      rcases hr : recordItems head (body.record (scope.bind head.name head.element)) 0 before
        (s.push head.name) out with ⟨inside, outcome⟩
      rw [hr] at hrows
      cases herror : outcome.error with
      | some e =>
          rw [Recorded.andThen_of_some (r := ⟨inside, outcome⟩) herror]
          exact hrows.after rfl
      | none =>
          rw [Recorded.andThen_of_none (r := ⟨inside, outcome⟩) herror, recordItems,
            if_neg (by simp [hrefused]), recordItems_template hr, Nat.zero_add, List.append_nil]
          exact .raised (.item hlist hr herror hrefused rfl) (hrows.complete herror)

end Loops

theorem leaf_record_whole {f : Fragment} (hf : f.isLeaf = true) (scope : Scope) (s : Stack)
    (out : String) : Whole [⟨scope, f, s⟩] (f.render s out).error := by
  rcases leaf_whole hf scope s with hdone | ⟨e, hraises⟩
  · rw [hdone]
    exact .done (List.forall_mem_singleton.2 (Or.inl ⟨hf, hdone⟩))
  · have herror : (f.render s out).error = some e := by
      cases hraises with
      | leaf _ hfails => rw [hfails, Outcome.failed]
      | _ => cases hf
    rw [herror]
    exact .raised hraises (List.forall_mem_nil _)

mutual

/-- A rendering is made of whole visits. -/
theorem record_whole : ∀ (f : Fragment) (scope : Scope) (s : Stack) (out : String),
    (f.record scope s out).Whole
  | .static content, scope, s, out => leaf_record_whole rfl scope s out
  | .interpolation t escaping, scope, s, out => leaf_record_whole rfl scope s out
  | .attribute name t boolean escaping, scope, s, out => leaf_record_whole rfl scope s out
  | .sequence parts, scope, s, out => by
      rw [record]
      exact (recordAll_whole parts scope s out).after rfl
  | .loop head body, scope, s, out => by
      rw [record]
      cases hlist : head.list.eval s with
      | error e => exact .raised (.list hlist) (List.forall_mem_nil _)
      | ok value =>
          have hother (h : ∀ items, value ≠ .list items) :
              Whole [⟨scope, .loop head body, s⟩]
                (some ⟨.notIterable value.kind, s.template, head.list.location⟩) :=
            .raised (.notIterable hlist h rfl) (List.forall_mem_nil _)
          cases value with
          | list items =>
              exact recordOver_whole hlist fun s o => record_whole body _ s o
          | _ => exact hother (by simp)
  | .conditional condition body, scope, s, out => by
      rw [record]
      cases hvalue : condition.eval s with
      | error e => exact .raised (.condition hvalue) (List.forall_mem_nil _)
      | ok value =>
          have hother (h : ∀ b, value ≠ .bool b) : Whole [⟨scope, .conditional condition body, s⟩]
              (some ⟨.condition value.kind, s.template, condition.location⟩) :=
            .raised (.notBool hvalue h rfl) (List.forall_mem_nil _)
          cases value with
          | bool b =>
              cases b with
              | true => exact (record_whole body scope s out).after rfl
              | false => exact .done (List.forall_mem_singleton.2 (Visit.complete_of_not_leaf rfl))
          | _ => exact hother (by simp)

theorem recordAll_whole : ∀ (fs : List Fragment) (scope : Scope) (s : Stack) (out : String),
    (recordAll fs scope s out).Whole
  | [], _, _, _ => .done (List.forall_mem_nil _)
  | f :: fs, scope, s, out => by
      rw [recordAll]
      exact (record_whole f scope s out).andThen fun s o => recordAll_whole fs scope s o

end

/-- Some fragments and others after them: the others are rendered on what the first leave, unless
they stop. -/
theorem render_append (xs ys : List Fragment) (s : Stack) (out : String) :
    (sequence (xs ++ ys)).render s out =
      ((sequence xs).render s out).andThen (sequence ys).render := by
  rw [render_eq, render_eq]
  simp only [written, writtenAll_append]
  exact (Written.outcome_andThen fun o => render_eq (.sequence ys) s o).symm

/-- What is written is what the visits write, also where they stop. -/
theorem record_texts (f : Fragment) (scope : Scope) (s : Stack) (out : String) :
    (f.render s out).out = out ++ String.join ((f.record scope s out).visits.map Visit.text) := by
  rw [record_out f scope s out, Chunk.write_flatMap]
  rfl

/-- The fragment that raises the error has written nothing. -/
theorem Raises.text_eq_empty {v : Visit} {inside : List Visit} {e : Render.Error}
    (h : v.fragment.Raises v.scope v.stack e inside) : v.text = "" := by
  obtain ⟨scope, f, s⟩ := v
  cases h with
  | leaf hf hfails =>
      have hout := render_leaf_out hf s ""
      rw [hfails, String.empty_append] at hout
      exact hout.symm
  | _ => rfl

/-- Rendering only appends whole pieces.  What is appended and why it stops, if it does, does not
depend on the output before; what is appended are the texts of the leaves that were visited, each of
them complete; if an error stopped it, nothing of the fragment that raised the error is
among them, and nothing after it, where a loop that refuses an item comes after the items before;
and some fragments in a row with others are rendered as the ones and then, unless they stop, the
others. -/
theorem render_whole (f : Fragment) (s : Stack) :
    (∃ (text : String) (halt : Option Render.Error), ∀ out,
      f.render s out = ⟨out ++ text, s, halt⟩) ∧
    (∀ (scope : Scope) (out : String),
      (f.record scope s out).outcome = f.render s out ∧
      ((f.render s out).error = none → (∀ v ∈ (f.record scope s out).visits, v.Complete) ∧
        (f.render s out).out =
          out ++ String.join ((f.record scope s out).visits.map Visit.text)) ∧
      ∀ e, (f.render s out).error = some e → ∃ before v inside,
        (f.record scope s out).visits = before ++ v :: inside ∧
        v.fragment.Raises v.scope v.stack e inside ∧ (∀ u ∈ before ++ inside, u.Complete) ∧
        (f.render s out).out = out ++ String.join ((before ++ inside).map Visit.text)) ∧
    ∀ (xs ys : List Fragment) (out : String), (sequence (xs ++ ys)).render s out =
      ((sequence xs).render s out).andThen (sequence ys).render := by
  refine ⟨⟨(f.written s).text, (f.written s).halt, fun out => render_eq f s out⟩, ?_, ?_⟩
  · intro scope out
    have hwhole : Whole (f.record scope s out).visits (f.render s out).error := by
      rw [← record_outcome f scope s out]
      exact record_whole f scope s out
    have htexts := record_texts f scope s out
    refine ⟨record_outcome f scope s out, ?_, ?_⟩
    · intro hnone
      rw [hnone] at hwhole
      exact ⟨hwhole.complete, htexts⟩
    · intro e he
      rw [he] at hwhole
      obtain ⟨before, v, inside, hvisits, hraises, hcomplete⟩ := hwhole.at_error
      refine ⟨before, v, inside, hvisits, hraises, hcomplete, ?_⟩
      rw [htexts, hvisits, List.map_append, List.map_append, List.map_cons, hraises.text_eq_empty,
        String.join_append, String.join_cons, String.empty_append, String.join_append]
  · intro xs ys out
    exact render_append xs ys s out

end Fragment

/-! ## A bill that stops -/

namespace Bill

/-- A drink of the bill, once as an attribute and once as text. -/
def drink : Fragment :=
  .sequence [.attribute "title" (.loopName ⟨.string, ⟨1, 1⟩⟩ "d") false .html, .static ">",
    .interpolation (.loopName ⟨.string, ⟨1, 1⟩⟩ "d") .html]

/-- Some text, and all drinks. -/
def bill : Fragment :=
  .sequence [.static "Bill:",
    .loop ⟨"d", .string, .loopName ⟨.list .string, ⟨1, 1⟩⟩ "drinks"⟩ drink]

/-- The second drink is none. -/
def stack : Stack := ⟨"bill", .null, [("drinks", .list [.string "R&B", .int 3, .string "tea"])]⟩

/-- The bill stops between the first drink and the second: seven fragments are rendered, four of
them write, and the loop is at fault. -/
theorem render_whole_bill : ∃ e,
    (bill.render stack "No 7 ").error = some e ∧
    (bill.render stack "No 7 ").out = "No 7 Bill: title=\"R&amp;B\">R&amp;B" ∧
    ∃ before v inside,
      (bill.record ⟨.empty "Bill", []⟩ stack "No 7 ").visits = before ++ v :: inside ∧
      v.fragment.Raises v.scope v.stack e inside ∧ (∀ u ∈ before ++ inside, u.Complete) ∧
      (bill.render stack "No 7 ").out =
        "No 7 " ++ String.join ((before ++ inside).map Visit.text) := by
  obtain ⟨-, hrecord, -⟩ := Fragment.render_whole bill stack
  obtain ⟨-, -, herror⟩ := hrecord ⟨.empty "Bill", []⟩ "No 7 "
  have hstops : (bill.render stack "No 7 ").error.isSome = true := by decide +kernel
  obtain ⟨e, he⟩ := Option.isSome_iff_exists.1 hstops
  exact ⟨e, he, by decide +kernel, herror e he⟩

end Bill

end TypedTemplate
