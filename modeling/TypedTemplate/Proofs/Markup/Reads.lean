/-
# `TypedTemplate.Proofs.Markup.Reads` — one step of the reader, as a relation

`Reads pos mode cs token mode' rest` says what `next` does when it finds a token, without
saying how: what stands at the beginning of `cs`, and what must not stand in it for the
token to reach as far as it does.  The two are the same (`next_eq_found`).  Read from left
to right this takes a step apart; from right to left it finds a token in a text of which
the shape is known.
-/
import Mathlib.Data.List.TakeWhile
import TypedTemplate.Proofs.Text.Cut
import TypedTemplate.Markup.Scan

namespace TypedTemplate.Markup

open Text

/-- Something other than character data begins here. -/
def opens (cs : List Char) : Bool := (opening? cs).isSome

/-- The character ends an attribute value without quotes. -/
def endsUnquoted (c : Char) : Bool := c == '>' || isAsciiBlank c

/-- `attributeValue` as a relation. -/
inductive ReadsValue (pos : Nat) : List Char → AttributeValue → List Char → Prop where
  | double {body rest : List Char} : '"' ∉ body →
      ReadsValue pos ('"' :: (body ++ '"' :: rest))
        ⟨String.ofList body, .double, .ofChars (pos + 1) body⟩ rest
  | single {body rest : List Char} : '\'' ∉ body →
      ReadsValue pos ('\'' :: (body ++ '\'' :: rest))
        ⟨String.ofList body, .single, .ofChars (pos + 1) body⟩ rest
  | unquoted {c : Char} {body rest : List Char} : c ≠ '"' → c ≠ '\'' →
      (∀ d ∈ c :: body, endsUnquoted d = false) →
      (rest = [] ∨ startsWhere endsUnquoted rest = true) →
      ReadsValue pos (c :: (body ++ rest))
        ⟨String.ofList (c :: body), .unquoted, .ofChars pos (c :: body)⟩ rest

theorem startsWith_iff {c : Char} {cs : List Char} :
    startsWith c cs = true ↔ ∃ rest, cs = c :: rest := by
  cases cs with
  | nil => simp [startsWith]
  | cons d cs => simp [startsWith]

theorem startsWhere_dropWhile (p : Char → Bool) (cs : List Char) :
    startsWhere p (cs.dropWhile p) = false := by
  induction cs with
  | nil => rfl
  | cons c cs ih =>
      rw [List.dropWhile_cons]
      split
      · exact ih
      · rename_i hc
        simpa [startsWhere] using hc

theorem dropWhile_of_startsWhere {p : Char → Bool} {cs : List Char}
    (h : startsWhere p cs = false) : cs.dropWhile p = cs := by
  cases cs with
  | nil => rfl
  | cons c cs => exact List.dropWhile_cons_of_neg (Bool.eq_false_iff.1 h)

theorem takeWhile_of_startsWhere {p : Char → Bool} {cs : List Char}
    (h : startsWhere p cs = false) : cs.takeWhile p = [] := by
  cases cs with
  | nil => rfl
  | cons c cs => exact List.takeWhile_cons_of_neg (Bool.eq_false_iff.1 h)

theorem cut?_startsWith {c : Char} {cs a b : List Char} :
    cut? (startsWith c) cs = some (a, b) ↔ ∃ rest, b = c :: rest ∧ cs = a ++ c :: rest ∧ c ∉ a := by
  rw [cut?_eq_some, startsWith_iff, Clear.startsWith]
  constructor
  · rintro ⟨rfl, -, ⟨rest, rfl⟩, hc⟩
    exact ⟨rest, rfl, rfl, hc⟩
  · rintro ⟨rest, rfl, rfl, hc⟩
    exact ⟨rfl, List.cons_ne_nil c rest, ⟨rest, rfl⟩, hc⟩

theorem attributeValue_eq_ok {pos : Nat} {cs rest : List Char} {v : AttributeValue} :
    attributeValue pos cs = .ok (v, rest) ↔ ReadsValue pos cs v rest := by
  constructor
  · intro h
    unfold attributeValue at h
    split at h
    · split at h
      · rename_i hcut
        obtain ⟨rest', rfl, rfl, hc⟩ := cut?_startsWith.1 hcut
        simp only [Except.ok.injEq, Prod.mk.injEq, List.drop_succ_cons, List.drop_zero] at h
        obtain ⟨rfl, rfl⟩ := h
        exact .double hc
      · cases h
    · split at h
      · rename_i hcut
        obtain ⟨rest', rfl, rfl, hc⟩ := cut?_startsWith.1 hcut
        simp only [Except.ok.injEq, Prod.mk.injEq, List.drop_succ_cons, List.drop_zero] at h
        obtain ⟨rfl, rfl⟩ := h
        exact .single hc
      · cases h
    · rename_i hdouble hsingle
      split at h
      · cases h
      · rename_i body rest' hne hcut
        simp only [Except.ok.injEq, Prod.mk.injEq] at h
        obtain ⟨rfl, rfl⟩ := h
        obtain ⟨rfl, hrest, hclear⟩ := cut_eq.1 hcut
        cases body with
        | nil => exact (hne rfl).elim
        | cons c body =>
            refine .unquoted (fun hc => ?_) (fun hc => ?_) (Clear.startsWhere.1 hclear) hrest
            · subst hc; exact hdouble _ rfl
            · subst hc; exact hsingle _ rfl
  · rintro (⟨hc⟩ | ⟨hc⟩ | ⟨hd, hs, hall, hrest⟩)
    · simp [attributeValue, cut?_startsWith.2 ⟨_, rfl, rfl, hc⟩]
    · simp [attributeValue, cut?_startsWith.2 ⟨_, rfl, rfl, hc⟩]
    · rename_i c body
      have hcut : cut (startsWhere fun c => c == '>' || isAsciiBlank c) (c :: body ++ rest) =
          (c :: body, rest) := cut_eq.2 ⟨rfl, hrest, Clear.startsWhere.2 hall⟩
      unfold attributeValue
      split
      · rename_i heq
        cases heq
        exact (hd rfl).elim
      · rename_i heq
        cases heq
        exact (hs rfl).elim
      · rw [← List.cons_append, hcut]

/-- A token is found at `pos`, at the beginning of the characters; `next` as a relation. -/
inductive Reads (pos : Nat) : Mode → List Char → Token → Mode → List Char → Prop where
  | comment {body rest : List Char} : Clear endsComment body ('-' :: '-' :: '>' :: rest) →
      Reads pos .content ('<' :: '!' :: '-' :: '-' :: (body ++ '-' :: '-' :: '>' :: rest))
        (.comment (String.ofList ('<' :: '!' :: '-' :: '-' :: (body ++ ['-', '-', '>'])))
          (.ofChars pos ('<' :: '!' :: '-' :: '-' :: (body ++ ['-', '-', '>'])))) .content rest
  | closeTag {inner rest : List Char} : '>' ∉ inner →
      Reads pos .content ('<' :: '/' :: (inner ++ '>' :: rest))
        (.closeTag (String.ofList inner) ⟨pos, size inner + 3⟩) .content rest
  | openTag {c : Char} {name rest : List Char} : c.isAlpha = true →
      (∀ d ∈ name, isTagNameChar d = true) → startsWhere isTagNameChar rest = false →
      Reads pos .content ('<' :: c :: (name ++ rest))
        (.openTag (String.ofList (c :: name)) ⟨pos, size (c :: name) + 1⟩)
        (.tag pos (String.ofList (c :: name))) rest
  | text {c : Char} {more rest : List Char} : Clear opens (c :: more) rest →
      (rest = [] ∨ opens rest = true) →
      Reads pos .content (c :: (more ++ rest))
        (.text (String.ofList (c :: more)) (.ofChars pos (c :: more))) .content rest
  | tagSelfClose {opened : Nat} {element : String} {blanks rest : List Char} :
      (∀ d ∈ blanks, isBlank d = true) →
      Reads pos (.tag opened element) (blanks ++ '/' :: '>' :: rest)
        (.tagSelfClose ⟨pos + size blanks, 2⟩) .content rest
  | tagEnd {opened : Nat} {element : String} {blanks rest : List Char} :
      (∀ d ∈ blanks, isBlank d = true) →
      Reads pos (.tag opened element) (blanks ++ '>' :: rest) (.tagEnd ⟨pos + size blanks, 1⟩)
        (if isRawText element then .raw opened element else .content) rest
  | attributeValue {opened : Nat} {element : String} {blanks cs rest : List Char}
      {v : AttributeValue} : (∀ d ∈ blanks, isBlank d = true) →
      ReadsValue (pos + size blanks + 1) cs v rest →
      Reads pos (.tag opened element) (blanks ++ '=' :: cs)
        (.attributeValue v ⟨pos + size blanks, v.writtenLength⟩) (.tag opened element) rest
  | attributeName {opened : Nat} {element : String} {c : Char} {blanks name rest : List Char} :
      (∀ d ∈ blanks, isBlank d = true) → isBlank c = false →
      Clear endsAttributeName (c :: name) rest → endsAttributeName rest = true →
      Reads pos (.tag opened element) (blanks ++ c :: (name ++ rest))
        (.attributeName (String.ofList (c :: name)) (.ofChars (pos + size blanks) (c :: name)))
        (.tag opened element) rest
  | rawText {opened : Nat} {element : String} {body rest : List Char} :
      Clear (endsRawText element.toList) body rest → endsRawText element.toList rest = true →
      Reads pos (.raw opened element) (body ++ rest)
        (.rawText (String.ofList body) (.ofChars pos body)) .content rest

section

variable {pos opened : Nat} {element : String} {mode mode' : Mode} {cs rest : List Char}
  {token : Token}

/-! ## Taking a step apart -/

theorem opening?_comment (h : opening? cs = some .comment) :
    ∃ rest, cs = '<' :: '!' :: '-' :: '-' :: rest := by
  unfold opening? at h
  split at h
  · exact ⟨_, rfl⟩
  · cases h
  · split at h <;> cases h
  · cases h

theorem opening?_closeTag (h : opening? cs = some .closeTag) : ∃ rest, cs = '<' :: '/' :: rest := by
  unfold opening? at h
  split at h
  · cases h
  · exact ⟨_, rfl⟩
  · split at h <;> cases h
  · cases h

theorem opening?_openTag : opening? cs = some .openTag ↔
    ∃ c rest, cs = '<' :: c :: rest ∧ c.isAlpha = true := by
  constructor
  · intro h
    unfold opening? at h
    split at h
    · cases h
    · cases h
    · rename_i c rest _ _
      split at h
      · rename_i hc
        exact ⟨c, rest, rfl, hc⟩
      · cases h
    · cases h
  · rintro ⟨c, rest, rfl, hc⟩
    unfold opening?
    split
    · rename_i heq
      cases heq
      exact absurd hc (by decide)
    · rename_i heq
      cases heq
      exact absurd hc (by decide)
    · rename_i heq
      cases heq
      rw [if_pos hc]
    · rename_i hnot
      exact (hnot c rest rfl).elim

theorem endsComment_iff : endsComment cs = true ↔ ∃ rest, cs = '-' :: '-' :: '>' :: rest := by
  unfold endsComment
  split
  · exact ⟨fun _ => ⟨_, rfl⟩, fun _ => rfl⟩
  · rename_i hnot
    exact ⟨fun h => (Bool.false_ne_true h).elim, fun ⟨rest, h⟩ => (hnot rest h).elim⟩

theorem isTagNameChar_of_isAlpha {c : Char} (h : c.isAlpha = true) : isTagNameChar c = true := by
  simp [isTagNameChar, Char.isAlphanum, h]

theorem Reads.of_nextContent (h : nextContent pos cs = .found token mode' rest) :
    Reads pos .content cs token mode' rest := by
  unfold nextContent at h
  split at h
  · rename_i hopen
    obtain ⟨cs, rfl⟩ := opening?_comment hopen
    simp only [List.drop_succ_cons, List.drop_zero, List.take_succ_cons, List.take_zero] at h
    split at h
    · rename_i hcut
      obtain ⟨rfl, -, hend, hclear⟩ := cut?_eq_some.1 hcut
      obtain ⟨rest', rfl⟩ := endsComment_iff.1 hend
      simp only [Step.found.injEq, List.drop_succ_cons, List.drop_zero, List.take_succ_cons,
        List.take_zero, List.cons_append, List.nil_append] at h
      obtain ⟨rfl, rfl, rfl⟩ := h
      exact .comment hclear
    · cases h
  · rename_i hopen
    obtain ⟨cs, rfl⟩ := opening?_closeTag hopen
    simp only [List.drop_succ_cons, List.drop_zero] at h
    split at h
    · rename_i hcut
      obtain ⟨rest', rfl, rfl, hinner⟩ := cut?_startsWith.1 hcut
      simp only [Step.found.injEq, List.drop_succ_cons, List.drop_zero] at h
      obtain ⟨rfl, rfl, rfl⟩ := h
      exact .closeTag hinner
    · cases h
  · rename_i hopen
    obtain ⟨c, cs, rfl, hc⟩ := opening?_openTag.1 hopen
    have hname := isTagNameChar_of_isAlpha hc
    simp only [Step.found.injEq, List.drop_succ_cons, List.drop_zero, List.takeWhile_cons, hname,
      if_true, List.dropWhile_cons] at h
    obtain ⟨rfl, rfl, rfl⟩ := h
    have hall : ∀ d ∈ cs.takeWhile isTagNameChar, isTagNameChar d = true :=
      fun d hd => List.mem_takeWhile_imp hd
    have hread : Reads pos _ _ _ _ _ := .openTag hc hall (startsWhere_dropWhile isTagNameChar cs)
    rwa [List.takeWhile_append_dropWhile] at hread
  · rename_i hopen
    split at h
    · cases h
    · rename_i c cs
      split at h
      rename_i more rest' hcut
      obtain ⟨rfl, hrest, hclear⟩ := cut_eq.1 hcut
      simp only [Step.found.injEq] at h
      obtain ⟨rfl, rfl, rfl⟩ := h
      exact .text ⟨by simp [opens, hopen], hclear⟩ hrest

theorem Reads.of_nextPart {blanks : List Char} (hb : ∀ d ∈ blanks, isBlank d = true)
    (hcs : startsWhere isBlank cs = false)
    (h : nextPart opened element (pos + size blanks) cs = .found token mode' rest) :
    Reads pos (.tag opened element) (blanks ++ cs) token mode' rest := by
  unfold nextPart at h
  split at h
  · cases h
  · cases h
    exact .tagSelfClose hb
  · cases h
    exact .tagEnd hb
  · split at h
    · rename_i hv
      cases h
      exact .attributeValue hb (attributeValue_eq_ok.1 hv)
    · cases h
  · split at h
    · cases h
    · rename_i c cs _ _ _ name rest' hne hcut
      cases h
      obtain ⟨heq, hrest, hclear⟩ := cut_eq.1 hcut
      cases name with
      | nil => exact (hne rfl).elim
      | cons d name =>
          obtain ⟨rfl, rfl⟩ := List.cons.inj heq
          refine .attributeName hb hcs hclear ?_
          rcases hrest with rfl | hrest
          · rfl
          · exact hrest

theorem Reads.of_nextInTag (h : nextInTag opened element pos cs = .found token mode' rest) :
    Reads pos (.tag opened element) cs token mode' rest := by
  have hread := Reads.of_nextPart (fun d hd => List.mem_takeWhile_imp hd)
    (startsWhere_dropWhile isBlank cs) h
  rwa [List.takeWhile_append_dropWhile] at hread

theorem Reads.of_nextRaw (h : nextRaw opened element pos cs = .found token mode' rest) :
    Reads pos (.raw opened element) cs token mode' rest := by
  rw [nextRaw] at h
  split at h
  · rename_i hcut
    cases h
    obtain ⟨rfl, -, hend, hclear⟩ := cut?_eq_some.1 hcut
    exact .rawText hclear hend
  · cases h

/-! ## Finding a token -/

theorem nextInTag_blanks {blanks : List Char} (hb : ∀ d ∈ blanks, isBlank d = true)
    (hcs : startsWhere isBlank cs = false) :
    nextInTag opened element pos (blanks ++ cs) =
      nextPart opened element (pos + size blanks) cs := by
  rw [nextInTag]
  rw [List.takeWhile_append_of_pos hb, List.dropWhile_append_of_pos hb,
    dropWhile_of_startsWhere hcs, takeWhile_of_startsWhere hcs, List.append_nil]

theorem nextPart_attributeName {c : Char} {name : List Char}
    (hclear : Clear endsAttributeName (c :: name) rest) (hrest : endsAttributeName rest = true) :
    nextPart opened element pos (c :: (name ++ rest)) =
      .found (.attributeName (String.ofList (c :: name)) (.ofChars pos (c :: name)))
        (.tag opened element) rest := by
  have hcut := cut_eq.2 ⟨(rfl : c :: name ++ rest = _), Or.inr hrest, hclear⟩
  have hhead := hclear.1
  unfold nextPart
  split
  · rename_i heq
    cases heq
  · rename_i heq
    rw [heq] at hhead
    cases hhead
  · rename_i heq
    rw [heq] at hhead
    simp [endsAttributeName] at hhead
  · rename_i heq
    rw [heq] at hhead
    simp [endsAttributeName] at hhead
  · rename_i heq
    cases heq
    rw [List.cons_append] at hcut
    rw [hcut]

theorem next_eq_found : next mode pos cs = .found token mode' rest ↔
    Reads pos mode cs token mode' rest := by
  constructor
  · intro h
    cases mode with
    | content => exact .of_nextContent h
    | tag opened element => exact .of_nextInTag h
    | raw opened element => exact .of_nextRaw h
  · intro h
    cases h with
    | @comment body rest hclear =>
        have hend := endsComment_iff.2 ⟨rest, rfl⟩
        have hcut := cut?_eq_some.2 ⟨rfl, List.cons_ne_nil '-' _, hend, hclear⟩
        simp [next, nextContent, opening?, hcut]
    | @closeTag inner rest hinner =>
        have hcut := cut?_startsWith.2 ⟨rest, rfl, rfl, hinner⟩
        simp [next, nextContent, opening?, hcut]
    | @openTag c name rest hc hname hrest =>
        have hopen := opening?_openTag.2 ⟨c, name ++ rest, rfl, hc⟩
        have hall : ∀ d ∈ c :: name, isTagNameChar d = true :=
          List.forall_mem_cons.2 ⟨isTagNameChar_of_isAlpha hc, hname⟩
        have htake : (c :: (name ++ rest)).takeWhile isTagNameChar = c :: name := by
          rw [← List.cons_append, List.takeWhile_append_of_pos hall, takeWhile_of_startsWhere hrest,
            List.append_nil]
        have hdrop : (c :: (name ++ rest)).dropWhile isTagNameChar = rest := by
          rw [← List.cons_append, List.dropWhile_append_of_pos hall, dropWhile_of_startsWhere hrest]
        simp only [next, nextContent, hopen, List.drop_succ_cons, List.drop_zero, htake, hdrop]
    | @text c more rest hclear hrest =>
        have hopen : opening? (c :: (more ++ rest)) = none := by simpa [opens] using hclear.1
        have hcut := cut_eq.2 ⟨rfl, hrest, hclear.2⟩
        simp only [next, nextContent, hopen]
        rw [show (fun cs => (opening? cs).isSome) = opens from rfl, hcut]
    | tagSelfClose hb =>
        show nextInTag _ _ _ _ = _
        rw [nextInTag_blanks hb rfl]
        rfl
    | tagEnd hb =>
        show nextInTag _ _ _ _ = _
        rw [nextInTag_blanks hb rfl]
        rfl
    | attributeValue hb hv =>
        show nextInTag _ _ _ _ = _
        rw [nextInTag_blanks hb rfl, nextPart, attributeValue_eq_ok.2 hv]
    | attributeName hb hc hclear hrest =>
        show nextInTag _ _ _ _ = _
        rw [nextInTag_blanks hb (show startsWhere isBlank (_ :: _) = false from hc),
          nextPart_attributeName hclear hrest]
    | @rawText _ _ body rest hclear hend =>
        have hne : rest ≠ [] := by
          rintro rfl
          cases hend
        simp [next, nextRaw, cut?_eq_some.2 ⟨rfl, hne, hend, hclear⟩]

end

end TypedTemplate.Markup
