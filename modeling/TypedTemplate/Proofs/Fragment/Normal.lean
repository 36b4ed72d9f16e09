/-
# `TypedTemplate.Proofs.Fragment.Normal` — compiled fragments are in normal form

Text stands next to text in a template wherever an element, a comment or an expression ends,
so the pieces that a compiler gives out are joined before they become a fragment.
`Fragment.Normal c outer nodes scope f` says what comes of it, for `f` and for everything in
it: no text is empty, no two texts stand side by side, and a sequence has at least two parts
and no sequence among them.  Of a loop or a condition it says besides which element it was
made for: the body begins with that element's tag, or, for a loop, is the condition of the
same element.  The nodes and scopes are those of `Fragment.Compiled`.

A sequence without parts is not normal; it is what a template without content compiles to.

The pieces need not be there all at once: taken one by one, with text held back until something
else comes, they are joined into the same fragment (`Collector.finish_foldl`).
-/
import Mathlib.Data.List.Chain
import TypedTemplate.Proofs.Fragment.Compiled

namespace TypedTemplate

open Markup

namespace Fragment

/-! ## The normal form -/

/-- The fragment is a sequence. -/
def isSequence : Fragment → Bool
  | .sequence _ => true
  | _ => false

/-- One of two neighbours is not text. -/
def Parted (f g : Fragment) : Prop := f.isStatic = false ∨ g.isStatic = false

/-- The fragment begins with text, and the text with the start of the element's tag. -/
inductive BeginsTag (e : Element) : Fragment → Prop where
  | static (more : String) : BeginsTag e (.static ("<" ++ e.name ++ more))
  | sequence (more : String) (rest : List Fragment) :
      BeginsTag e (.sequence (.static ("<" ++ e.name ++ more) :: rest))

/-- The fragment is the element in its condition. -/
def ConditionOf (c : Compiler) (scope : Scope) (e : Element) (f : Fragment) : Prop :=
  ∃ a t body, a ∈ e.attributes ∧ a.control? c.config = some .condition ∧
    c.conditionOf scope a = .ok t ∧ f = .conditional t body ∧ body.BeginsTag e

/-- Fragments without empty text, neighbouring texts, nested sequences or sequences of one, in
which a loop or condition begins with the tag of its element. -/
inductive Normal (c : Compiler) (outer : Scope) (nodes : List Node) : Scope → Fragment → Prop where
  | static {scope : Scope} {content : String} :
      content ≠ "" → Normal c outer nodes scope (.static content)
  | interpolation {scope : Scope} (t : Term) (escaping : Text.Escaping) :
      Normal c outer nodes scope (.interpolation t escaping)
  | attribute {scope : Scope} (name : String) (t : Term) (boolean : Bool)
      (escaping : Text.Escaping) :
      Normal c outer nodes scope (.attribute name t boolean escaping)
  | sequence {scope : Scope} {parts : List Fragment} :
      2 ≤ parts.length → parts.IsChain Parted → (∀ f ∈ parts, f.isSequence = false) →
      (∀ f ∈ parts, Normal c outer nodes scope f) → Normal c outer nodes scope (.sequence parts)
  | loop {scope : Scope} {e : Element} {children : List Node} {a : Attribute} {head : Loop}
      {body : Fragment} :
      Stands c.config outer nodes scope (.element e children) →
      a ∈ e.attributes → a.control? c.config = some .loop → c.loopOf scope a = .ok head →
      body.BeginsTag e ∨ body.ConditionOf c (scope.bind head.name head.element) e →
      Normal c outer nodes (scope.bind head.name head.element) body →
      Normal c outer nodes scope (.loop head body)
  | conditional {around scope : Scope} {e : Element} {children : List Node} {t : Term}
      {body : Fragment} :
      Stands c.config outer nodes around (.element e children) →
      e.Opens c.config around scope → (Fragment.conditional t body).ConditionOf c scope e →
      Normal c outer nodes scope body → Normal c outer nodes scope (.conditional t body)

/-! ## Joining -/

/-- No two texts are left side by side. -/
theorem joinText_parted : ∀ (fs : List Fragment) (pending : String),
    (joinText pending fs).IsChain Parted := by
  have hpiece : ∀ pending : String, (textPiece pending).IsChain Parted := by
    intro pending
    rw [textPiece]
    split
    · exact .nil
    · exact .singleton _
  intro fs
  induction fs with
  | nil => exact hpiece
  | cons f fs ih =>
      intro pending
      have hother (hother : f.isStatic = false) :
          (textPiece pending ++ f :: joinText "" fs).IsChain Parted := by
        refine List.isChain_append.2 ⟨hpiece pending, List.isChain_cons.2 ⟨?_, ih ""⟩, ?_⟩
        · intro g _
          exact Or.inl hother
        · intro g _ g' hg'
          cases Option.some.inj hg'
          exact Or.inr hother
      cases f with
      | static content => exact ih _
      | _ => exact hother rfl

theorem textPiece_of_ne {pending : String} (h : pending ≠ "") :
    textPiece pending = [.static pending] := by
  rw [textPiece, if_neg fun hempty => h (String.isEmpty_iff.1 hempty)]

/-- Text that is still to be given out comes first. -/
theorem joinText_pending (fs : List Fragment) : ∀ pending, pending ≠ "" →
    ∃ more rest, joinText pending fs = .static (pending ++ more) :: rest := by
  induction fs with
  | nil =>
      intro pending hpending
      exact ⟨"", [], by rw [joinText, textPiece_of_ne hpending, String.append_empty]⟩
  | cons f fs ih =>
      intro pending hpending
      have hother (joined : List Fragment) :
          ∃ more rest, textPiece pending ++ joined = .static (pending ++ more) :: rest :=
        ⟨"", joined, by rw [textPiece_of_ne hpending, String.append_empty]; rfl⟩
      cases f with
      | static content =>
          have hmore : pending ++ content ≠ "" := by
            intro hempty
            exact hpending (String.append_eq_empty_iff.1 hempty).1
          obtain ⟨more, rest, hjoin⟩ := ih (pending ++ content) hmore
          exact ⟨content ++ more, rest, by rw [joinText, hjoin, String.append_assoc]⟩
      | _ => exact hother _

/-! ## Joining piece by piece -/

/-- Fragments that are given out already, and text that is not. -/
structure Collector where
  given : List Fragment := []
  pending : String := ""

namespace Collector

/-- Gives out the text. -/
def flush (s : Collector) : Collector := ⟨s.given ++ textPiece s.pending, ""⟩

/-- Takes one more piece: text waits, anything else is given out behind the text. -/
def take (s : Collector) : Fragment → Collector
  | .static content => { s with pending := s.pending ++ content }
  | other => { s.flush with given := s.flush.given ++ [other] }

/-- All that was taken as one fragment. -/
def finish (s : Collector) : Fragment :=
  match s.flush.given with
  | [only] => only
  | parts => .sequence parts

/-- A piece that is not text is given out behind the text that waited for it. -/
theorem flush_take_other {fs : List Fragment} (s : Collector) (f : Fragment)
    (h : s.take f = ⟨s.given ++ textPiece s.pending ++ [f], ""⟩)
    (ih : ∀ s : Collector, (fs.foldl take s).flush.given = s.given ++ joinText s.pending fs) :
    ((f :: fs).foldl take s).flush.given =
      s.given ++ (textPiece s.pending ++ f :: joinText "" fs) := by
  rw [List.foldl_cons, h, ih]
  simp

/-- What is given out in the end is joined. -/
theorem flush_foldl (fs : List Fragment) : ∀ s : Collector,
    (fs.foldl take s).flush.given = s.given ++ joinText s.pending fs := by
  induction fs with
  | nil => exact fun _ => rfl
  | cons f fs ih =>
      intro s
      cases f with
      | static content => exact ih _
      | _ => exact flush_take_other s _ rfl ih

/-- Taking pieces one by one is the same as joining them all. -/
theorem finish_foldl (fs : List Fragment) : (fs.foldl take {}).finish = ofPieces fs := by
  rw [finish, flush_foldl, List.nil_append]
  rfl

end Collector

/-! ## One fragment for some pieces -/

theorem ofPieces_conditional (t : Term) (body : Fragment) :
    ofPieces [.conditional t body] = .conditional t body := rfl

/-- Pieces that begin with a tag are a fragment that begins with it. -/
theorem ofPieces_beginsTag {e : Element} {fs : List Fragment} (h : Compiler.TagFirst e fs) :
    (ofPieces fs).BeginsTag e := by
  obtain ⟨rest, rfl⟩ := h
  have htag : "" ++ (Mark.openTag e.name).write ≠ "" := by
    intro hempty
    simp [Mark.write] at hempty
  obtain ⟨more, joined, hjoin⟩ := joinText_pending rest _ htag
  rw [ofPieces, joinText, hjoin, String.empty_append, Mark.write]
  cases joined with
  | nil => exact .static more
  | cons f joined => exact .sequence more (f :: joined)

/-- A fragment that a compiler gives out: any text, or a normal fragment that is no sequence. -/
def Piece (c : Compiler) (outer : Scope) (nodes : List Node) (scope : Scope) (f : Fragment) : Prop :=
  f.isStatic = false → f.isSequence = false ∧ Normal c outer nodes scope f

variable {c : Compiler} {outer scope : Scope} {nodes : List Node} {fs : List Fragment}

/-- Pieces make a normal fragment, unless nothing is left of them. -/
theorem ofPieces_normal (h : ∀ f ∈ fs, Piece c outer nodes scope f) :
    ofPieces fs = .sequence [] ∨ Normal c outer nodes scope (ofPieces fs) := by
  have hjoin : ∀ f ∈ joinText "" fs, f.isSequence = false ∧ Normal c outer nodes scope f :=
    joinText_all (fun content hcontent => ⟨rfl, .static hcontent⟩) fs "" h
  have hparted := joinText_parted fs ""
  rw [ofPieces]
  match hparts : joinText "" fs with
  | [] => exact Or.inl rfl
  | [only] => exact Or.inr (hjoin only (by simp [hparts])).2
  | f :: g :: parts =>
      rw [hparts] at hjoin hparted
      refine Or.inr (.sequence (by simp) hparted ?_ ?_)
      · intro part hpart
        exact (hjoin part hpart).1
      · intro part hpart
        exact (hjoin part hpart).2

/-- A body that begins with a tag is not empty. -/
theorem ofPieces_normal_of_tag {e : Element} (htag : Compiler.TagFirst e fs)
    (h : ∀ f ∈ fs, Piece c outer nodes scope f) :
    Normal c outer nodes scope (ofPieces fs) := by
  rcases ofPieces_normal h with hempty | hnormal
  · have hbegins := ofPieces_beginsTag htag
    rw [hempty] at hbegins
    cases hbegins
  · exact hnormal

/-! ## What compiles -/

/-- Whatever a compiler gives out is a piece; a loop or a condition is one because its body begins
with a tag. -/
theorem piece_rules : Compiler.Rules c outer nodes (Piece c outer nodes) where
  static _ _ := by
    intro h
    cases h
  text _ _ _ _ _ := ⟨rfl, .interpolation _ _⟩
  content _ _ _ _ _ := ⟨rfl, .interpolation _ _⟩
  dynamic _ _ _ _ _ _ _ := ⟨rfl, .attribute _ _ _ _⟩
  conditional hnode hopens hmem hasks ht htag hpieces _ := by
    refine ⟨rfl, .conditional hnode hopens ?_ (ofPieces_normal_of_tag htag hpieces)⟩
    exact ⟨_, _, _, hmem, hasks, ht, rfl, ofPieces_beginsTag htag⟩
  loop hnode hmem hasks hhead hfirst hpieces _ := by
    refine ⟨rfl, ?_⟩
    rcases hfirst with htag | ⟨a, t, inner, ha, hcondition, ht, htag, rfl⟩
    · exact .loop hnode hmem hasks hhead (Or.inl (ofPieces_beginsTag htag))
        (ofPieces_normal_of_tag htag hpieces)
    · refine .loop hnode hmem hasks hhead (Or.inr ?_) ?_
      · exact ⟨a, t, _, ha, hcondition, ht, ofPieces_conditional t _, ofPieces_beginsTag htag⟩
      · rw [ofPieces_conditional]
        exact (hpieces _ (List.mem_singleton_self _) rfl).2

end Fragment

/-- A template that compiles is a fragment in normal form, or has nothing in it at all. -/
theorem Template.compile_normal {config : Config} {source : Source} {context : ObjectTy}
    {t : Template} (h : Template.compile config source context = .ok t) :
    ∃ document, Document.parse config source = .ok document ∧
      (t.fragment = .sequence [] ∨
        t.fragment.Normal ⟨config, source⟩ ⟨context, []⟩ document.children ⟨context, []⟩) := by
  obtain ⟨document, f, hread, hf, rfl⟩ := Template.compile_ok.1 h
  obtain ⟨fs, rfl, hfs⟩ := Fragment.piece_rules.compile_all hf
  exact ⟨document, Except.mapError_eq_ok.2 hread, Fragment.ofPieces_normal hfs⟩

/-! ## A page whose text is cut by comments -/

namespace Reminder

/-- An invoice has a title and may be due, and the page lists them. -/
def page : ObjectTy := (ObjectTy.empty "Page").withField "invoices" (.list (.object
  (((ObjectTy.empty "Invoice").withField "title" .string).withField "due" .bool)))

/-- Text between comments, a loop with a condition on one element, and a body that is replaced. -/
def source : Source := .ofString "reminder" <|
  "<!--a-->Due<!--b-->: <p c:for='i:invoices' c:if='i.due'>#\x7bi.title\x7d" ++
    "<b c:text='i.title'>#\x7bi.title\x7d</b></p>"

/-- The texts of a template, each with its depth. -/
def texts (t : Template) : List (Nat × String) :=
  (t.fragment.walk 0).filterMap fun
    | (depth, .static content) => some (depth, content)
    | _ => none

/-- The theorem at the reminder: the text in front is one text, the others are in a sequence that
is in the condition in the loop. -/
theorem compile_normal_reminder : ∃ t,
    Template.compile { stripComments := true } source page = .ok t ∧
    texts t = [(1, "Due: "), (4, "<p>"), (4, "<b>"), (4, "</b></p>")] ∧
    ∃ document, Document.parse { stripComments := true } source = .ok document ∧
      t.fragment.Normal ⟨{ stripComments := true }, source⟩ ⟨page, []⟩ document.children
        ⟨page, []⟩ := by
  have hok : (Template.compile { stripComments := true } source page).toOption.map texts =
      some [(1, "Due: "), (4, "<p>"), (4, "<b>"), (4, "</b></p>")] := by decide +kernel
  obtain ⟨t, hc, htexts⟩ := Except.toOption_map_eq_some.1 hok
  obtain ⟨document, hparse, hempty | hnormal⟩ := Template.compile_normal hc
  · rw [texts, hempty] at htexts
    cases htexts
  · exact ⟨t, hc, htexts, document, hparse, hnormal⟩

end Reminder

end TypedTemplate
