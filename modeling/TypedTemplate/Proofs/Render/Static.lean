/-
# `TypedTemplate.Proofs.Render.Static` — templates that say the same for every context

A document is static if none of its attributes is dynamic and no expression begins in its
character data; the body of a raw text element is not looked at.  Unless comments are left
out, a static document means its own text (`Interpreter.nodes_static`), so a template made
from it writes that, whatever it is rendered for (`Template.render_eq_write`).  What was
written is read as the document again, apart from places, exactly if no start tag runs
together.
-/
import Mathlib.Data.List.Infix
import TypedTemplate.Proofs.Markup.RoundTrip
import TypedTemplate.Proofs.Render.Meaning

namespace TypedTemplate

open Markup

/-! ## Static documents -/

mutual

/-- Nothing in the node depends on the context. -/
def Markup.Node.isStatic : Node → Bool
  | .text content _ => !content.toList.tails.any Interpolation.begins
  | .comment _ _ => true
  | .element e children =>
    e.attributes.all (fun a => !a.dynamic) && (isRawText e.name || Node.allStatic children)
termination_by structural node => node

/-- Nothing in some nodes depends on the context. -/
def Markup.Node.allStatic : List Node → Bool
  | [] => true
  | node :: rest => node.isStatic && Node.allStatic rest
termination_by structural nodes => nodes

end

/-- Nothing in the document depends on the context. -/
def Markup.Document.isStatic (d : Document) : Bool := Node.allStatic d.children

theorem Interpolation.clear_begins {cs : List Char} :
    Text.Clear Interpolation.begins cs [] ↔ cs.tails.any Interpolation.begins = false := by
  induction cs with
  | nil => exact iff_of_true trivial rfl
  | cons c cs ih =>
      rw [Text.Clear, ih, List.append_nil, List.tails_cons, List.any_cons, Bool.or_eq_false_iff]

/-- Character data in which no expression begins is plain. -/
theorem Interpolation.parts_plain {cs : List Char} (h : cs.tails.any Interpolation.begins = false)
    (pos : Nat) : Interpolation.parts pos cs = [.plain cs] := by
  have hcut := Text.cut?_eq_none.2 (Interpolation.clear_begins.2 h)
  rw [Interpolation.parts]
  split
  · rfl
  · rename_i hsome
    rw [hcut] at hsome
    cases hsome

namespace Interpreter

variable {i : Interpreter}

/-- Writes some marks. -/
def marks (ms : List Mark) : Written Stop := .ofText (String.join (ms.map Mark.write))

theorem marks_append (ms ms' : List Mark) : marks (ms ++ ms') = (marks ms).andThen (marks ms') := by
  rw [marks, List.map_append, String.join_append]
  rfl

theorem each_tagAttribute {env : Env} {as : List Attribute} (h : ∀ a ∈ as, a.dynamic = false) :
    Written.each (i.tagAttribute env) as = marks (as.flatMap Attribute.marks) := by
  induction as with
  | nil => rfl
  | cons a as ih =>
      obtain ⟨ha, has⟩ := List.forall_mem_cons.1 h
      rw [List.flatMap_cons, marks_append, Written.each, ih has, tagAttribute, ha,
        ← staticAttribute_eq]
      rfl

theorem directive?_static {e : Element} (h : ∀ a ∈ e.attributes, a.dynamic = false)
    (name : String) : i.directive? e name = none := by
  rw [directive?, List.find?_eq_none]
  intro a ha
  rw [h a ha]
  exact Bool.false_ne_true

/-- The body of a raw text element is its text. -/
theorem marks_rawText {children : List Node} (h : ∀ n ∈ children, n.IsText) :
    marks (Node.marksAll children) = .ofText (rawText children) := by
  induction children with
  | nil => rfl
  | cons n children ih =>
      obtain ⟨hn, hchildren⟩ := List.forall_mem_cons.1 h
      cases n with
      | text content span =>
          rw [Node.marksAll, marks_append, ih hchildren, rawText, Written.ofText_append]
          simp [Node.marks, marks, Mark.write]
      | comment content span => exact hn.elim
      | element e children => exact hn.elim

/-- An element without directives is its tag, its content and its end tag. -/
theorem once_static {env : Env} {e : Element} {children : List Node} {inner : Written Stop}
    (hstatic : ∀ a ∈ e.attributes, a.dynamic = false) (hfits : e.Fits children)
    (hinner : isRawText e.name = false → inner = marks (Node.marksAll children)) :
    i.once env e children inner = marks (Node.element e children).marks := by
  have hcontent : i.content env e children inner = marks (Node.marksAll children) := by
    rw [content, directive?_static hstatic, directive?_static hstatic]
    cases hraw : isRawText e.name with
    | true => exact (marks_rawText (hfits.raw hraw)).symm
    | false => exact hinner hraw
  have hopen : marks e.openMarks = (Written.ofText ("<" ++ e.name)).andThen
      ((marks (e.attributes.flatMap Attribute.marks)).andThen
        (.ofText (if e.selfClosed then "/>" else ">"))) := by
    rw [Element.openMarks, ← List.singleton_append, marks_append, marks_append]
    cases e.selfClosed <;> simp [marks, Mark.write]
  have hclose : marks e.closeMarks =
      .ofText (if e.hasEndTag then "</" ++ e.name ++ ">" else "") := by
    rw [Element.closeMarks]
    cases e.hasEndTag <;> simp [marks, Mark.write]
  rw [once, each_tagAttribute hstatic, hcontent, Node.marks, marks_append, marks_append, hopen,
    hclose]
  simp only [Written.andThen_assoc]

mutual

theorem node_static (hstrip : i.config.stripComments = false) : ∀ (node : Node) (env : Env),
    node.isStatic = true → node.WellFormed → i.node node env = marks node.marks
  | .text content span, env, hstatic, _ => by
      have hplain : content.toList.tails.any Interpolation.begins = false := by
        rwa [Node.isStatic, Bool.not_eq_true'] at hstatic
      rw [node, Interpolation.parts_plain hplain, Written.each, Written.each, part,
        String.ofList_toList, Written.andThen_nothing]
      simp [Node.marks, marks, Mark.write]
  | .comment content span, env, _, _ => by
      rw [node, hstrip]
      simp [Node.marks, marks, Mark.write]
  | .element e children, env, hstatic, hw => by
      obtain ⟨hfits, hchildren⟩ := hw
      rw [Node.isStatic, Bool.and_eq_true, List.all_eq_true] at hstatic
      obtain ⟨hattributes, hbody⟩ := hstatic
      have hdynamic : ∀ a ∈ e.attributes, a.dynamic = false := by simpa using hattributes
      rw [node, directive?_static hdynamic, directive?_static hdynamic]
      refine once_static hdynamic hfits ?_
      intro hraw
      exact nodes_static hstrip children env (by simpa [hraw] using hbody) hchildren

/-- Static nodes mean their own text. -/
theorem nodes_static (hstrip : i.config.stripComments = false) : ∀ (nodes : List Node) (env : Env),
    Node.allStatic nodes = true → Node.WellFormedAll nodes →
      i.nodes nodes env = marks (Node.marksAll nodes)
  | [], _, _, _ => rfl
  | first :: rest, env, hstatic, hw => by
      rw [Node.allStatic, Bool.and_eq_true] at hstatic
      rw [nodes, node_static hstrip first env hstatic.1 hw.1,
        nodes_static hstrip rest env hstatic.2 hw.2, Node.marksAll, marks_append]

end

end Interpreter

namespace Template

variable {config : Config} {source : Source} {context : ObjectTy} {t : Template}
  {document : Document}

/-- A template with a static document writes the document, whatever it is rendered for. -/
theorem render_eq_write (hc : Template.compile config source context = .ok t)
    (hstrip : config.stripComments = false)
    (hread : Markup.Document.read config source = .ok document)
    (hstatic : document.isStatic = true) (v : Value) : t.render v = .ok document.write := by
  obtain ⟨document', hread', hwritten⟩ := Template.lift_written hc
  cases hread.symm.trans hread'
  have hmarks := hwritten v
  rw [Interpreter.nodes_static hstrip _ _ hstatic (Document.read_wellFormed hread)] at hmarks
  rw [Template.render, Template.renderTo, Fragment.render_eq, Written.lift_eq_ofText hmarks]
  simp [Written.outcome, Written.ofText, Document.write, Document.marks]

/-- What a template with a static document writes, for every context, is read as the same document
again, apart from places, exactly if none of the document's start tags runs together. -/
theorem render_static (hc : Template.compile config source context = .ok t)
    (hstrip : config.stripComments = false)
    (hread : Markup.Document.read config source = .ok document)
    (hstatic : document.isStatic = true)
    (hdrops : Markup.Document.dropsNone config source = true) (v : Value) (name : String) :
    ∃ out, t.render v = .ok out ∧
      ((∃ again, Markup.Document.read config (.ofString name out) = .ok again ∧
          again.bare = document.bare) ↔
        ∀ below ∈ document.descendants, ∀ e ∈ below.2.element?, e.tagRuns = false) :=
  ⟨document.write, render_eq_write hc hstrip hread hstatic v,
    Document.reread_iff hread hdrops name⟩

end Template

/-! ## A form -/

namespace Form

/-- A form is given nothing. -/
def page : ObjectTy := .empty "Page"

/-- A field whose tag closes itself after a value without quotes. -/
def field : Source := .ofString "field" "<input type=text />"

/-- The same field with a tag that does not close itself, and a note. -/
def note : Source := .ofString "note" "<p class=note >All <b>names</b><br></br><input type=text ></p>"

/-- A start tag in the document runs together. -/
def runs (d : Document) : Bool := d.descendants.any fun below => below.2.element?.any Element.tagRuns

theorem compiles {source : Source} {r : Bool}
    (hok : (Template.compile {} source page).toBool = true)
    (hshape : (Markup.Document.read {} source).toOption.map (fun d => (d.isStatic, runs d)) =
      some (true, r)) : ∃ t document, Template.compile {} source page = .ok t ∧
    Markup.Document.read {} source = .ok document ∧ document.isStatic = true ∧
    runs document = r := by
  obtain ⟨document, hread, hdocument⟩ := Option.map_eq_some_iff.1 hshape
  obtain ⟨hstatic, hruns⟩ := Prod.mk.inj hdocument
  cases hc : Template.compile {} source page with
  | error e =>
      rw [hc] at hok
      cases hok
  | ok t => exact ⟨t, document, rfl, Except.toOption_eq_some.1 hread, hstatic, hruns⟩

theorem runs_eq_false {d : Document} : runs d = false ↔
    ∀ below ∈ d.descendants, ∀ e ∈ below.2.element?, e.tagRuns = false := by
  simp only [runs, List.any_eq_false, Bool.not_eq_true, Option.any_eq_false, Option.mem_def]

/-- The field is another one when it is read again: the `/` becomes a part of its value. -/
theorem field_not_reread : ∃ t document out, Template.compile {} field page = .ok t ∧
    Markup.Document.read {} field = .ok document ∧ document.isStatic = true ∧
    Markup.Document.dropsNone {} field = true ∧ t.render (.object []) = .ok out ∧
    ¬ ∃ again, Markup.Document.read {} (.ofString "field" out) = .ok again ∧
      again.bare = document.bare := by
  have hok : (Template.compile {} field page).toBool = true := by decide +kernel
  obtain ⟨t, document, hc, hread, hstatic, hruns⟩ := compiles (r := true) hok (by decide +kernel)
  have hdrops : Markup.Document.dropsNone {} field = true := by decide +kernel
  refine ⟨t, document, document.write, hc, hread, hstatic, hdrops,
    Template.render_eq_write hc rfl hread hstatic _, ?_⟩
  rw [Document.reread_iff hread hdrops "field", ← runs_eq_false, hruns]
  intro hapart
  cases hapart

/-- The note is the same when it is read again. -/
theorem render_static_note : ∃ t document out, Template.compile {} note page = .ok t ∧
    Markup.Document.read {} note = .ok document ∧ t.render (.object []) = .ok out ∧
    ∃ again, Markup.Document.read {} (.ofString "note" out) = .ok again ∧
      again.bare = document.bare := by
  have hok : (Template.compile {} note page).toBool = true := by decide +kernel
  obtain ⟨t, document, hc, hread, hstatic, hruns⟩ := compiles (r := false) hok (by decide +kernel)
  have hdrops : Markup.Document.dropsNone {} note = true := by decide +kernel
  obtain ⟨out, hout, hiff⟩ :=
    Template.render_static hc rfl hread hstatic hdrops (.object []) "note"
  exact ⟨t, document, out, hc, hread, hout, hiff.2 (runs_eq_false.1 hruns)⟩

end Form

end TypedTemplate
