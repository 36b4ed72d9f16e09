/-
# `TypedTemplate.Proofs.Render.Meaning` — compiling a document keeps its meaning

What the compiler makes of a node writes, on the stack of an environment, what the
interpreter writes for the node in that environment.  The proof follows the document: one
lemma for each kind of part says this of the part, given that it compiles, and the two
functions over nodes and their lists put the parts together.  A rendering stops with
errors only, so its result is carried over to the interpreter's (`Written.lift`).

One thing about the document is needed, that a tag which closes itself has no content;
it holds of every document that was read.
-/
import TypedTemplate.Proofs.Fragment.Directives
import TypedTemplate.Proofs.Fragment.Pieces
import TypedTemplate.Proofs.Fragment.Steps
import TypedTemplate.Proofs.Markup.WellFormed
import TypedTemplate.Proofs.Render.Interpret

namespace TypedTemplate

open Markup

/-- The same, as a result of the interpreter. -/
def Written.lift (w : Written Render.Error) : Written Stop := ⟨w.text, w.halt.map .failed⟩

namespace Written

@[simp] theorem lift_nothing : (Written.nothing).lift = .nothing := rfl

@[simp] theorem lift_ofText (text : String) : (Written.ofText text).lift = .ofText text := rfl

theorem lift_andThen (a b : Written Render.Error) :
    (a.andThen b).lift = a.lift.andThen b.lift := by
  obtain ⟨text, halt⟩ := a
  cases halt <;> rfl

theorem lift_eq_ofText {w : Written Render.Error} {text : String} (h : w.lift = .ofText text) :
    w = .ofText text := by
  obtain ⟨text', halt⟩ := w
  cases halt with
  | some e => cases congrArg Written.halt h
  | none => exact congrArg Written.ofText (congrArg Written.text h)

theorem lift_after {α : Type} (found : Except Render.Error α) (use : α → Written Render.Error) :
    (after found use).lift = after (found.mapError .failed) fun a => (use a).lift := by
  cases found <;> rfl

end Written

namespace Interpreter

variable {i : Interpreter} {env : Env}

/-- The compiler with the same options for the same source. -/
def compiler (i : Interpreter) : Compiler := ⟨i.config, i.source⟩

/-- What fragments write in an environment. -/
def run (i : Interpreter) (env : Env) (fs : List Fragment) : Written Stop :=
  (Fragment.writtenAll fs (env.stack i.source.name)).lift

theorem run_append (fs gs : List Fragment) :
    i.run env (fs ++ gs) = (i.run env fs).andThen (i.run env gs) := by
  simp only [run, Fragment.writtenAll_append, Written.lift_andThen]

theorem run_singleton (f : Fragment) :
    i.run env [f] = (f.written (env.stack i.source.name)).lift := by
  simp [run, Fragment.writtenAll]

theorem run_static (content : String) : i.run env [.static content] = .ofText content := by
  rw [run_singleton]
  rfl

theorem run_staticPieces (marks : List Mark) :
    i.run env (Compiler.staticPieces marks) = .ofText (String.join (marks.map Mark.write)) := by
  simp only [run, Fragment.writtenAll_staticPieces, Written.lift_ofText]

theorem term_eq {e : Excerpt} {t : Term} (h : Term.read i.source env.scope e = .ok t) :
    i.term env e = .ok t := by
  rw [term, h]
  rfl

/-! ## Character data -/

theorem run_interpolation {e : Excerpt} {t : Term} {escaping : Text.Escaping}
    (h : Term.read i.source env.scope e = .ok t) :
    i.run env [.interpolation t escaping] = i.interpolation env e escaping := by
  rw [run_singleton]
  simp only [Fragment.written, Written.lift_after, Written.lift_ofText, interpolation, term_eq h,
    Written.after_ok, output]

theorem run_partPieces {part : Interpolation.Part} {fs : List Fragment}
    (h : i.compiler.partPieces env.scope part = .ok fs) : i.run env fs = i.part env part := by
  cases part with
  | plain cs =>
      rw [Compiler.plain_ok.1 h]
      exact run_static _
  | code e =>
      obtain ⟨t, ht, -, rfl⟩ := Compiler.code_ok.1 h
      exact run_interpolation ht
  | unterminated span => exact (Compiler.unterminated_ok.1 h).elim

theorem run_partsPieces {parts : List Interpolation.Part} {fs : List Fragment}
    (h : i.compiler.partsPieces env.scope parts = .ok fs) :
    i.run env fs = .each (i.part env) parts := by
  induction parts generalizing fs with
  | nil =>
      cases h
      rfl
  | cons part parts ih =>
      obtain ⟨pieces, more, hp, hm, rfl⟩ := Compiler.partsPieces_cons_ok.1 h
      rw [run_append, run_partPieces hp, ih hm]
      rfl

/-! ## Tags -/

theorem staticAttribute_eq (a : Attribute) :
    String.join (a.marks.map Mark.write) = staticAttribute a := by
  unfold Attribute.marks staticAttribute
  cases a.quote with
  | bare => simp [Mark.write]
  | valued quote => simp [Mark.write, String.append_assoc]

theorem controls_contains {name : String} :
    controls.contains name = (Control.ofName? name).isSome := by
  rw [Bool.eq_iff_iff, Option.isSome_iff_exists]
  simp only [Control.ofName?_eq_some, controls, List.contains_eq_mem, List.mem_cons,
    List.not_mem_nil, or_false, decide_eq_true_eq]
  constructor
  · rintro (h | h | h | h)
    · exact ⟨.loop, h⟩
    · exact ⟨.condition, h⟩
    · exact ⟨.text, h⟩
    · exact ⟨.html, h⟩
  · rintro ⟨control, rfl⟩
    cases control <;> simp [Control.name]

theorem writtenAttribute_eq {name : String} {t : Term} {v : Value} :
    (Fragment.writtenAttribute name t (booleanAttributes.contains name) i.config.escaping
      (env.stack i.source.name) v).lift = i.attributeOf name t v := by
  have htext : ∀ text : String, Text.write i.config.escaping (" " ++ name ++ "=\"") text ++ "\"" =
      " " ++ name ++ "=\"" ++ Text.write i.config.escaping "" text ++ "\"" := by
    intro text
    rw [Text.write_eq]
  unfold Fragment.writtenAttribute attributeOf
  cases hb : booleanAttributes.contains name with
  | false => cases v <;> simp [Fragment.attributeText, htext]
  | true =>
      cases v with
      | bool b => cases b <;> simp [Fragment.attributeText]
      | _ => rfl

theorem run_attributePieces {a : Attribute} {fs : List Fragment}
    (h : i.compiler.attributePieces env.scope a = .ok fs) :
    i.run env fs = i.tagAttribute env a := by
  rw [tagAttribute]
  rcases Compiler.attributePieces_ok h with
    ⟨hd, rfl⟩ | ⟨hd, hn, rfl⟩ | ⟨name, hd, hn, ⟨hc, rfl⟩ | ⟨f, hc, hf, rfl⟩⟩
  · rw [run_staticPieces, staticAttribute_eq, hd]
    rfl
  · rw [show i.config.directive? a.name = none from hn, if_pos hd]
    rfl
  · rw [show i.config.directive? a.name = some name from hn, if_pos hd]
    dsimp only
    rw [controls_contains, if_pos hc]
    rfl
  · obtain ⟨t, ht, -, rfl⟩ := Compiler.dynamicAttribute_ok.1 hf
    rw [show i.config.directive? a.name = some name from hn, if_pos hd]
    dsimp only
    rw [controls_contains, hc, term_eq ht, run_singleton]
    simp only [Fragment.written, Written.lift_after, Written.after_ok, output]
    congr 1
    funext v
    exact writtenAttribute_eq

theorem run_attributesPieces {as : List Attribute} {fs : List Fragment}
    (h : i.compiler.attributesPieces env.scope as = .ok fs) :
    i.run env fs = .each (i.tagAttribute env) as := by
  induction as generalizing fs with
  | nil =>
      cases h
      rfl
  | cons a as ih =>
      obtain ⟨pieces, more, hp, hm, rfl⟩ := Compiler.attributesPieces_cons_ok.1 h
      rw [run_append, run_attributePieces hp, ih hm]
      rfl

/-! ## Elements -/

theorem directive?_eq {e : Element} {ds : Directives} (h : Directives.ofElement i.config e = .ok ds)
    (control : Control) : i.directive? e control.name = ds.get? control := by
  rw [Directives.ofElement_get? h control]
  rw [directive?]
  congr 1
  funext a
  rw [Bool.eq_iff_iff, beq_iff_eq, Attribute.control?_eq_some, Bool.and_eq_true, beq_iff_eq]

theorem run_rawPieces (children : List Node) :
    i.run env (Compiler.rawPieces children) = .ofText (rawText children) := by
  induction children with
  | nil => rfl
  | cons n rest ih =>
      cases n with
      | text content span =>
          show i.run env ([.static content] ++ Compiler.rawPieces rest) = _
          rw [run_append, run_static, ih, ← Written.ofText_append]
          rfl
      | comment content span => exact ih
      | element e children => exact ih

section

variable {e : Element} {ds : Directives} {children : List Node}
  {compiled : Except ExprFault (List Fragment)} {inner : Written Stop} {fs : List Fragment}

/-- What replaces the content, as the interpreter finds it. -/
theorem content_eq (hds : Directives.ofElement i.config e = .ok ds) :
    i.content env e children inner =
      match ds.content? i.config with
      | some (a, escaping) => i.interpolation env a.excerpt escaping
      | none => if isRawText e.name then .ofText (rawText children) else inner := by
  have htext : i.directive? e "text" = ds.text := directive?_eq hds .text
  have hhtml : i.directive? e "html" = ds.html := directive?_eq hds .html
  unfold content Directives.content?
  rw [htext, hhtml]
  cases ds.text with
  | some a => rfl
  | none => cases ds.html <;> rfl

theorem run_bodyPieces (hds : Directives.ofElement i.config e = .ok ds)
    (hinner : ∀ pieces, compiled = .ok pieces → i.run env pieces = inner)
    (h : i.compiler.bodyPieces env.scope e ds children compiled = .ok fs) :
    i.run env fs = i.content env e children inner := by
  rw [content_eq hds]
  rcases Compiler.bodyPieces_ok h with
    ⟨a, escaping, t, hcontent, ht, -, rfl⟩ | ⟨hcontent, hraw, rfl⟩ | ⟨hcontent, hraw, hcompiled⟩
  · rw [show ds.content? i.config = some (a, escaping) from hcontent]
    exact run_interpolation ht
  · rw [show ds.content? i.config = none from hcontent, hraw]
    exact run_rawPieces children
  · rw [show ds.content? i.config = none from hcontent, hraw]
    exact hinner fs hcompiled

/-- A tag that closes itself has nothing after it. -/
theorem run_elementPieces (hds : Directives.ofElement i.config e = .ok ds)
    (hfits : e.Fits children) (hempty : children = [] → inner = .nothing)
    (hinner : ∀ pieces, compiled = .ok pieces → i.run env pieces = inner)
    (h : i.compiler.elementPieces env.scope e ds children compiled = .ok fs) :
    i.run env fs = i.once env e children inner := by
  obtain ⟨attributes, rest, ha, rfl, hrest⟩ := Compiler.elementPieces_ok h
  have hopen : i.run env (Compiler.staticPieces [.openTag e.name]) = .ofText ("<" ++ e.name) := by
    simp [run_staticPieces, Mark.write]
  rw [once]
  rw [run_append, run_append, hopen, run_attributesPieces ha, Written.andThen_assoc]
  congr 2
  rcases hrest with ⟨hself, hcontent, rfl⟩ | ⟨hself, body, hb, rfl⟩
  · obtain ⟨hchildren, hend⟩ := hfits.alone hself
    have hnone : i.content env e children inner = .nothing := by
      rw [content_eq hds, show ds.content? i.config = none from hcontent, hempty hchildren,
        hchildren]
      simp [rawText]
    rw [run_staticPieces, hnone, hself, hend]
    simp [Mark.write]
  · rw [run_append, run_append, run_staticPieces, run_staticPieces, run_bodyPieces hds hinner hb,
      hself, Written.andThen_assoc]
    congr 1
    rw [Element.closeMarks]
    cases e.hasEndTag <;> simp [Mark.write]

theorem run_conditionalPieces (hds : Directives.ofElement i.config e = .ok ds)
    (hfits : e.Fits children) (hempty : children = [] → inner = .nothing)
    (hinner : ∀ pieces, compiled = .ok pieces → i.run env pieces = inner)
    (h : i.compiler.conditionalPieces env.scope e ds children compiled = .ok fs) :
    i.run env fs =
      i.guarded env (i.directive? e "if") (i.once env e children inner) := by
  rw [show i.directive? e "if" = ds.condition from directive?_eq hds .condition]
  rcases Compiler.conditionalPieces_ok h with ⟨hnone, he⟩ | ⟨a, t, pieces, ha, ht, hp, rfl⟩
  · rw [hnone]
    exact run_elementPieces hds hfits hempty hinner he
  · obtain ⟨hread, -⟩ := Compiler.conditionOf_ok.1 ht
    have hbody := run_elementPieces hds hfits hempty hinner hp
    rw [ha, run_singleton]
    simp only [Fragment.written, Written.lift_after, guarded, term_eq hread, Written.after_ok,
      value]
    congr 1
    funext v
    cases v with
    | bool b =>
        cases b with
        | true => rw [← hbody, run, ← Fragment.written_ofPieces]; rfl
        | false => rfl
    | _ => rfl

end

/-! ## Loops and documents -/

theorem header_eq {a : Attribute} {head : Loop}
    (h : i.compiler.loopOf env.scope a = .ok head) :
    i.header env a = .ok (head.name, head.element, head.list) := by
  obtain ⟨header, hread, hname, hlist, hty⟩ := Compiler.loopOf_ok.1 h
  have hlist' : header.list.resolve i.source env.scope = .ok head.list := hlist
  rw [Interpreter.header, hread]
  show ((header.list.resolve i.source env.scope).mapError fun _ => Stop.refused) >>= _ = _
  rw [hlist']
  show itemType head.list.type >>= _ = _
  rw [hty]
  show Except.ok (header.name, head.element, head.list) = _
  rw [hname]

theorem lift_writtenItems {head : Loop} {body : Stack → Written Render.Error}
    {w : Env → Written Stop}
    (hbody : ∀ v, (body ((env.stack i.source.name).bind head.name v)).lift =
      w (env.bind head.name head.element v)) (values : List Value) (index : Nat) :
    (Fragment.writtenItems head body (env.stack i.source.name) index values).lift =
      i.items env head.name head.element head.list w index values := by
  induction values generalizing index with
  | nil => rfl
  | cons v values ih =>
      unfold Fragment.writtenItems items
      split
      · rw [Written.lift_andThen, hbody, ih]
      · rfl

mutual

/-- The pieces of a node write what the node means. -/
theorem run_nodePieces : ∀ (node : Node) (env : Env) {fs : List Fragment}, node.WellFormed →
    i.compiler.nodePieces env.scope node = .ok fs → i.run env fs = i.node node env
  | .text content span, env, fs, _, h => by
      simp only [Compiler.nodePieces] at h
      rw [run_partsPieces h, node]
  | .comment content span, env, fs, _, h => by
      simp only [Compiler.nodePieces] at h
      cases h
      rw [node]
      show i.run env (if i.config.stripComments then _ else _) = _
      split
      · rfl
      · exact run_static content
  | .element e children, env, fs, hw, h => by
      obtain ⟨hfits, hchildren⟩ := hw
      have hempty : ∀ env, children = [] → i.nodes children env = .nothing := by
        rintro env rfl
        rfl
      obtain ⟨ds, hds, hcase⟩ := Compiler.elementNode_ok h
      rw [node, show i.directive? e "for" = ds.loop from directive?_eq hds .loop]
      rcases hcase with ⟨hnone, hp⟩ | ⟨a, head, pieces, ha, hh, hp, rfl⟩
      · rw [hnone]
        exact run_conditionalPieces hds hfits (hempty env)
          (fun gs hg => run_nodesPieces children env hchildren hg) hp
      · rw [ha, run_singleton]
        simp only [Fragment.written, Written.lift_after, repeated, header_eq hh, Written.after_ok,
          value]
        congr 1
        funext v
        cases v with
        | list values =>
            refine lift_writtenItems (fun item => ?_) values 0
            rw [Fragment.written_ofPieces]
            let inside := env.bind head.name head.element item
            have hinner : ∀ gs, i.compiler.nodesPieces inside.scope children = .ok gs →
                i.run inside gs = i.nodes children inside := by
              intro gs hg
              exact run_nodesPieces children inside hchildren hg
            exact run_conditionalPieces hds hfits (hempty inside) hinner hp
        | _ => rfl

/-- The pieces of some nodes write what the nodes mean. -/
theorem run_nodesPieces : ∀ (nodes : List Node) (env : Env) {fs : List Fragment},
    Node.WellFormedAll nodes → i.compiler.nodesPieces env.scope nodes = .ok fs →
      i.run env fs = i.nodes nodes env
  | [], env, fs, _, h => by
      simp only [Compiler.nodesPieces] at h
      cases h
      rfl
  | first :: rest, env, fs, hw, h => by
      obtain ⟨hfirst, hrest⟩ := hw
      obtain ⟨pieces, more, hp, hm, rfl⟩ := Compiler.nodesPieces_cons_ok.1 h
      rw [run_append, run_nodePieces first env hfirst hp, run_nodesPieces rest env hrest hm, nodes]

end

end Interpreter

/-- The fragment of a template writes what the interpreter writes for the template's document. -/
theorem Template.lift_written {config : Config} {source : Source} {context : ObjectTy}
    {t : Template} (hc : Template.compile config source context = .ok t) :
    ∃ document, Markup.Document.read config source = .ok document ∧
      ∀ v, (t.fragment.written ⟨t.name, v, []⟩).lift =
        Interpreter.nodes ⟨config, source⟩ document.children ⟨context, v, []⟩ := by
  obtain ⟨document, f, hd, hf, rfl⟩ := Template.compile_ok.1 hc
  refine ⟨document, hd, ?_⟩
  intro v
  simp only [Compiler.compile, Except.bind_eq_ok, Except.pure_eq_ok] at hf
  obtain ⟨fs, hfs, rfl⟩ := hf
  rw [← Interpreter.run_nodesPieces (i := ⟨config, source⟩) document.children
    ⟨context, v, []⟩ (Document.read_wellFormed hd) hfs, Fragment.written_ofPieces]
  rfl

/-- A template writes after any output what the interpreter writes for its document there, and
stops where the interpreter stops, with the same error. -/
theorem Template.renderTo_eq_interpret {config : Config} {source : Source} {context : ObjectTy}
    {t : Template} (hc : Template.compile config source context = .ok t) (out : String)
    (v : Value) :
    ∃ document, Markup.Document.read config source = .ok document ∧
      Interpreter.document ⟨config, source⟩ context document out v =
        ((t.renderTo out v).out, (t.renderTo out v).error.map .failed) := by
  obtain ⟨document, hd, hwritten⟩ := Template.lift_written hc
  refine ⟨document, hd, ?_⟩
  rw [Template.renderTo, Fragment.render_eq, Interpreter.document, ← hwritten]
  rfl

/-! ## A greeting -/

namespace Greeting

/-- What a greeting is given. -/
def page : ObjectTy := (ObjectTy.empty "Page").withField "names" (.list .string)

/-- A template with a loop and a condition around an element. -/
def source : Source :=
  .ofString "greeting" "<p c:for='n:names' c:if='!n.isEmpty()'>Hello #\x7bn\x7d</p>"

/-- Somebody, and somebody without a name. -/
def context : Value := .object [("names", .list [.string "Ann", .string ""])]

/-- The greeting compiles, and the interpreter writes what it renders. -/
theorem renderTo_eq_interpret_greeting : ∃ t, Template.compile {} source page = .ok t ∧
    ∃ document, Markup.Document.read {} source = .ok document ∧
      Interpreter.document ⟨{}, source⟩ page document "" context =
        ((t.renderTo "" context).out, (t.renderTo "" context).error.map .failed) := by
  have hok : (Template.compile {} source page).toBool = true := by decide +kernel
  cases hc : Template.compile {} source page with
  | error e =>
      rw [hc] at hok
      cases hok
  | ok t => exact ⟨t, rfl, Template.renderTo_eq_interpret hc "" context⟩

end Greeting

end TypedTemplate
