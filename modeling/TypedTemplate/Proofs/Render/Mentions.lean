/-
# `TypedTemplate.Proofs.Render.Mentions` — a loop binding affects only what mentions it

The names that are free in a fragment are those that its terms look up and that no loop inside
it binds (`Fragment.free`): the list of a loop is outside of the loop, its body inside, so
one name may be free in the list and bound in the body.  Two stacks that agree on the free names
of a fragment agree on what it writes (`Fragment.written_agree`), however many other scopes they
have.  The step through a loop is that one more binding on both sides extends the agreement to
its own name, even if it hides another of that name on one of them (`Stack.AgreeOn.bind`).

Together with the same fact about scopes this says that loops do not interfere
(`Fragment.affected_by_mention`).
-/
import TypedTemplate.Proofs.Render.Written
import TypedTemplate.Proofs.Term.Mentions

namespace TypedTemplate

/-- Under one more binding, of the same name and value, stacks agree on that name too. -/
theorem Stack.AgreeOn.bind {names : List String} {s s' : Stack} {name : String}
    (h : Stack.AgreeOn (names.filter (· != name)) s s') (value : Value) :
    Stack.AgreeOn names (s.bind name value) (s'.bind name value) := by
  refine ⟨h.template, h.root, ?_⟩
  intro word hword
  simp only [Stack.lookup?, Stack.bind, List.lookup_cons]
  cases heq : word == name with
  | true => rfl
  | false => exact h.lookup? word (List.mem_filter.2 ⟨hword, by simp [bne, heq]⟩)

namespace Fragment

mutual

/-- The loop names that a fragment looks up outside of the loops that bind them. -/
def free : Fragment → List String
  | .static _ => []
  | .interpolation t _ => t.loopNames
  | .attribute _ t _ _ => t.loopNames
  | .sequence parts => freeAll parts
  | .loop head body => head.list.loopNames ++ (free body).filter (· != head.name)
  | .conditional condition body => condition.loopNames ++ free body
termination_by structural fragment => fragment

/-- The loop names that are free in some fragments. -/
def freeAll : List Fragment → List String
  | [] => []
  | fragment :: rest => free fragment ++ freeAll rest
termination_by structural fragments => fragments

end

section

variable {s s' : Stack}

theorem writtenAttribute_agree (h : s.template = s'.template) (name : String) (t : Term)
    (boolean : Bool) (escaping : Text.Escaping) (value : Value) :
    writtenAttribute name t boolean escaping s value =
      writtenAttribute name t boolean escaping s' value := by
  simp only [writtenAttribute, h]

section

variable {body : Stack → Written Render.Error} (h : s.template = s'.template)

include h

/-- The items of a loop are bound one by one, each on the stack outside. -/
theorem writtenItems_agree {head : Loop}
    (hbody : ∀ v, body (s.bind head.name v) = body (s'.bind head.name v)) :
    ∀ (items : List Value) (index : Nat),
      writtenItems head body s index items = writtenItems head body s' index items
  | [], _ => rfl
  | item :: items, index => by
      simp only [writtenItems, hbody, h, writtenItems_agree hbody items (index + 1)]

theorem writtenLoop_agree {head : Loop}
    (hbody : ∀ v, body (s.bind head.name v) = body (s'.bind head.name v)) (value : Value) :
    writtenLoop head body s value = writtenLoop head body s' value := by
  cases value with
  | list items => exact writtenItems_agree h hbody items 0
  | _ => simp only [writtenLoop, h]

theorem writtenIf_agree (hbody : body s = body s') (condition : Term) (value : Value) :
    writtenIf condition body s value = writtenIf condition body s' value := by
  cases value with
  | bool b => cases b <;> simp only [writtenIf, hbody]
  | _ => simp only [writtenIf, h]

end

end

mutual

/-- A fragment depends on the loops around it through its free names. -/
theorem written_agree : ∀ (f : Fragment) {s s' : Stack}, Stack.AgreeOn f.free s s' →
    f.written s = f.written s'
  | .static _, _, _, _ => rfl
  | .interpolation t escaping, s, s', h => by
      simp only [written, Term.conforming_agree t h]
  | .attribute name t boolean escaping, s, s', h => by
      have huse := funext (writtenAttribute_agree h.template name t boolean escaping)
      simp only [written, Term.conforming_agree t h, huse]
  | .sequence parts, s, s', h => by
      simp only [written]
      exact writtenAll_agree parts h
  | .loop head body, s, s', h => by
      have hbody : ∀ v, body.written (s.bind head.name v) = body.written (s'.bind head.name v) := by
        intro v
        exact written_agree body (h.right.bind v)
      have huse := funext (writtenLoop_agree h.template hbody)
      simp only [written, Term.eval_agree head.list h.left, huse]
  | .conditional condition body, s, s', h => by
      have hbody : body.written s = body.written s' := written_agree body h.right
      have huse := funext (writtenIf_agree h.template hbody condition)
      simp only [written, Term.eval_agree condition h.left, huse]

theorem writtenAll_agree : ∀ (fs : List Fragment) {s s' : Stack}, Stack.AgreeOn (freeAll fs) s s' →
    writtenAll fs s = writtenAll fs s'
  | [], _, _, _ => rfl
  | f :: fs, s, s', h => by
      simp only [writtenAll, written_agree f h.left, writtenAll_agree fs h.right]

end

/-- A loop binding affects only what mentions it.  A binding of a name that is not written alone in
an expression, wherever in the scope it is inserted, changes neither the term that the expression
stands for nor the fault in it, up to the help.  And on two stacks of one template and one
context that give the free names of a fragment the same values, the fragment appends the same text
and stops for the same reason or for none, whatever else the stacks hold. -/
theorem affected_by_mention :
    (∀ (source : Source) (e : Excerpt) (root : ObjectTy) (inner outer : List (String × Ty))
        (name : String) (τ : Ty), (∀ tree, Expr.read e = .ok tree → name ∉ tree.idents) →
      SameUpToHelp (Term.read source ⟨root, inner ++ (name, τ) :: outer⟩ e)
        (Term.read source ⟨root, inner ++ outer⟩ e)) ∧
    ∀ (f : Fragment) (s s' : Stack), s.template = s'.template → s.root = s'.root →
      (∀ name ∈ f.free, s.lookup? name = s'.lookup? name) →
      ∃ (text : String) (halt : Option Render.Error), ∀ out,
        f.render s out = ⟨out ++ text, s, halt⟩ ∧ f.render s' out = ⟨out ++ text, s', halt⟩ := by
  constructor
  · intro source e root inner outer name τ hname
    refine Term.read_agree source e ?_
    intro tree hread
    exact .insert root inner outer τ (hname tree hread)
  · intro f s s' htemplate hroot hlookup
    have hagree : f.written s = f.written s' := f.written_agree ⟨htemplate, hroot, hlookup⟩
    refine ⟨(f.written s).text, (f.written s).halt, ?_⟩
    intro out
    constructor
    · rw [render_eq]
      rfl
    · rw [render_eq, ← hagree]
      rfl

end Fragment

/-! ## Titles of teams -/

namespace Teams

/-- A team has a title. -/
def team : ObjectTy := (ObjectTy.empty "Team").withField "title" .string

/-- A page of one team. -/
def page : ObjectTy := (ObjectTy.empty "Page").withField "team" (.object team)

/-- A member that a loop may have the name of. -/
def title : Excerpt := ⟨0, "team.title".toList⟩

/-- The title of a loop, as text. -/
def item : Fragment := .interpolation (.loopName ⟨.string, ⟨1, 1⟩⟩ "title") .html

/-- The titles in a loop, under a name that another loop may have. -/
def titles : Fragment :=
  .loop ⟨"title", .string, .loopName ⟨.list .string, ⟨1, 1⟩⟩ "titles"⟩ item

/-- One loop around the titles, of which the second item is no title. -/
def alone : Stack := ⟨"teams", .null, [("titles", .list [.string "A&B", .int 3])]⟩

/-- The same loop in others, one of them of the name of a title. -/
def crowded : Stack :=
  ⟨"teams", .null, [("title", .int 1), ("titles", .list [.string "A&B", .int 3]), ("x", .null)]⟩

/-- A loop that has the name of a member changes neither what the member is nor what the titles
are, though both are about that name. -/
theorem affected_by_mention_titles :
    (∀ tree, Expr.read title = .ok tree → "title" ∉ tree.idents) ∧
    SameUpToHelp (Term.read ⟨"teams", []⟩ ⟨page, [("x", .int)] ++ ("title", .int) :: []⟩ title)
      (Term.read ⟨"teams", []⟩ ⟨page, [("x", .int)] ++ []⟩ title) ∧
    titles.free = ["titles"] ∧
    (∀ name ∈ titles.free, alone.lookup? name = crowded.lookup? name) ∧
    ∃ (text : String) (halt : Option Render.Error), ∀ out,
      titles.render alone out = ⟨out ++ text, alone, halt⟩ ∧
        titles.render crowded out = ⟨out ++ text, crowded, halt⟩ := by
  have hidents : (Expr.read title).toOption.map Expr.idents = some ["team"] := by decide +kernel
  have hname : ∀ tree, Expr.read title = .ok tree → "title" ∉ tree.idents := by
    intro tree htree
    rw [htree] at hidents
    rw [Option.some.inj hidents]
    decide
  have hfree : titles.free = ["titles"] := by decide +kernel
  have hlookup : ∀ name ∈ titles.free, alone.lookup? name = crowded.lookup? name := by
    rw [hfree]
    intro name hmem
    rw [List.mem_singleton.1 hmem]
    rfl
  obtain ⟨hstatic, hdynamic⟩ := Fragment.affected_by_mention
  exact ⟨hname, hstatic ⟨"teams", []⟩ title page [("x", .int)] [] "title" .int hname, hfree,
    hlookup, hdynamic titles alone crowded rfl rfl hlookup⟩

end Teams

end TypedTemplate
