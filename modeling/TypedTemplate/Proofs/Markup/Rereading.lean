/-
# `TypedTemplate.Proofs.Markup.Rereading` — reading back what was written

Tokens written out are read back as they were, as long as no two of them run into each
other (`Legible.readsAll`).  From the first pair that does on, the reading is another one,
and the two never come together again as far as the ends of start tags go: the tag that the
pair ends is read as ending the other way (`Legible.endings_ne`).
-/
import TypedTemplate.Proofs.Markup.Bare
import TypedTemplate.Proofs.Markup.Legible
import TypedTemplate.Proofs.Markup.Writing

namespace TypedTemplate.Markup

open Text

/-! ## What comes next -/

section

variable {mode mode' : Mode} {pos : Nat} {element : String} {token : Token} {tokens : List Token}

/-- Inside a start tag comes a part of it. -/
theorem Legible.head_tag (h : Legible (.tag 0 element) tokens) :
    ∃ m ms, tokens.flatMap Token.marks = m :: ms ∧ m.isTagPart = true ∧
      ∀ quote value, m = .attributeValue quote value → ∃ t ∈ tokens.head?, t.IsValue := by
  cases h with
  | tagSelfClose => exact ⟨_, _, rfl, rfl, fun _ _ h => nomatch h⟩
  | tagEnd => exact ⟨_, _, rfl, rfl, fun _ _ h => nomatch h⟩
  | attributeValue => exact ⟨_, _, rfl, rfl, fun _ _ _ => ⟨_, rfl, trivial⟩⟩
  | attributeName => exact ⟨_, _, rfl, rfl, fun _ _ h => nomatch h⟩

/-- Text is followed by nothing, or something begins there. -/
theorem Legible.head_content (h : Legible .content tokens)
    (hhead : ∀ t ∈ tokens.head?, ¬ t.IsText) : written (tokens.flatMap Token.marks) = [] ∨
      opens (written (tokens.flatMap Token.marks)) = true ∧
        ∃ more, written (tokens.flatMap Token.marks) = '<' :: more := by
  cases h with
  | nil => exact Or.inl rfl
  | text => exact (hhead _ rfl trivial).elim
  | comment =>
      rw [List.flatMap_cons, Token.marks, List.singleton_append, written_cons]
      simp [opens, opening?]
  | closeTag =>
      rw [List.flatMap_cons, Token.marks, List.singleton_append, written_cons]
      simp [opens, opening?]
  | openTag hc hname =>
      rw [List.flatMap_cons, Token.marks, List.singleton_append, written_cons]
      simp [opens_iff, hc]

/-- The name of a start tag ends where it ended. -/
theorem Legible.ends_tagName (h : Legible (.tag 0 element) tokens) :
    startsWhere isTagNameChar (written (tokens.flatMap Token.marks)) = false := by
  obtain ⟨m, ms, hms, hm, -⟩ := h.head_tag
  rw [hms, written_cons]
  cases m with
  | attributeName name => rw [Mark.toList_attributeName]; rfl
  | attributeValue quote value => rw [Mark.toList_attributeValue]; rfl
  | tagEnd => rfl
  | tagSelfClose => rfl
  | _ => cases hm

theorem Legible.ends_name (h : Legible (.tag 0 element) tokens) :
    endsAttributeName (written (tokens.flatMap Token.marks)) = true := by
  obtain ⟨m, ms, hms, hm, -⟩ := h.head_tag
  rw [hms, written_cons]
  cases m with
  | attributeName name => rw [Mark.toList_attributeName]; rfl
  | attributeValue quote value => rw [Mark.toList_attributeValue]; rfl
  | tagEnd => rfl
  | tagSelfClose => rfl
  | _ => cases hm

/-- An attribute name ends where it ended and not before, if the next mark is not what it would
take. -/
theorem Legible.clear_name (h : Legible (.tag 0 element) tokens) {name : List Char}
    (hclear : Clear endsAttributeName name [' '])
    (hapart : ∀ m ∈ (tokens.flatMap Token.marks).head?,
      (Mark.attributeName (String.ofList name)).runsInto m = false) :
    Clear endsAttributeName name (written (tokens.flatMap Token.marks)) := by
  obtain ⟨m, ms, hms, hm, -⟩ := h.head_tag
  rw [hms] at hapart ⊢
  refine hclear.congr ?_
  intro c s hs hc
  rw [endsAttributeName_cons, Bool.or_eq_false_iff] at hc ⊢
  refine ⟨hc.1, ?_⟩
  cases s with
  | cons d s => exact hc.2
  | nil =>
      rw [List.nil_append, written_cons]
      cases m with
      | attributeName name => rw [Mark.toList_attributeName]; exact Bool.and_false _
      | attributeValue quote value => rw [Mark.toList_attributeValue]; exact Bool.and_false _
      | tagSelfClose => exact Bool.and_false _
      | tagEnd =>
          obtain ⟨before, rfl⟩ := hs
          have hlast : c ≠ '/' := by simpa [Mark.runsInto] using hapart
          rw [beq_eq_false_iff_ne.2 hlast, Bool.false_and]
      | _ => cases hm

/-- A value without quotes ends where it ended. -/
theorem Legible.ends_unquoted (h : Legible (.tag 0 element) tokens)
    (hhead : ∀ t ∈ tokens.head?, ¬ t.IsValue) {v : String}
    (hapart : ∀ m ∈ (tokens.flatMap Token.marks).head?,
      (Mark.attributeValue .unquoted v).runsInto m = false) :
    startsWhere endsUnquoted (written (tokens.flatMap Token.marks)) = true := by
  obtain ⟨m, ms, hms, hm, hvalue⟩ := h.head_tag
  rw [hms] at hapart ⊢
  rw [written_cons]
  cases m with
  | attributeName name => rw [Mark.toList_attributeName]; rfl
  | attributeValue quote value =>
      obtain ⟨t, ht, hisvalue⟩ := hvalue quote value rfl
      exact (hhead t ht hisvalue).elim
  | tagEnd => rfl
  | tagSelfClose => cases hapart _ rfl
  | _ => cases hm

theorem AttributeValue.Legible.reads {v : AttributeValue} {rest : List Char} (h : v.Legible)
    (hrest : v.quote = .unquoted → startsWhere endsUnquoted rest = true) : ∃ v',
      ReadsValue pos (v.quote.mark.toList ++ v.text.toList ++ v.quote.mark.toList ++ rest) v' rest ∧
        v'.bare = v.bare := by
  obtain ⟨text, quote, span⟩ := v
  cases quote with
  | double =>
      have hread : ReadsValue pos _ _ rest := .double h
      exact ⟨_, by simpa [Quote.mark] using hread, by simp [AttributeValue.bare]⟩
  | single =>
      have hread : ReadsValue pos _ _ rest := .single h
      exact ⟨_, by simpa [Quote.mark] using hread, by simp [AttributeValue.bare]⟩
  | unquoted =>
      obtain ⟨c, body, htext, hdouble, hsingle, hall⟩ := h
      have hread : ReadsValue pos _ _ rest := .unquoted hdouble hsingle hall (Or.inr (hrest rfl))
      rw [← List.cons_append, ← htext, String.ofList_toList] at hread
      exact ⟨⟨text, .unquoted, .ofChars pos text.toList⟩, by simpa [Quote.mark] using hread, rfl⟩

end

/-! ## Reading back -/

section

variable {mode mode' : Mode} {pos : Nat} {token : Token} {tokens : List Token}

theorem Mode.bare_eq_content (h : mode'.bare = .content) : mode' = .content := by
  cases mode' with
  | content => rfl
  | tag opened element => cases h
  | raw opened element => cases h

theorem Mode.bare_eq_tag {element : String} (h : mode'.bare = .tag 0 element) :
    ∃ opened, mode' = .tag opened element := by
  cases mode' with
  | content => cases h
  | tag opened element' =>
      cases h
      exact ⟨opened, rfl⟩
  | raw opened element' => cases h

theorem Mode.bare_eq_raw {element : String} (h : mode'.bare = .raw 0 element) :
    ∃ opened, mode' = .raw opened element := by
  cases mode' with
  | content => cases h
  | tag opened element' => cases h
  | raw opened element' =>
      cases h
      exact ⟨opened, rfl⟩

/-! Between the parts of a start tag stands nothing when they are written out, but for one space
before an attribute's name. -/

theorem Reads.tagSelfClose_here {opened : Nat} {element : String} {rest : List Char} :
    Reads pos (.tag opened element) ('/' :: '>' :: rest) (.tagSelfClose ⟨pos, 2⟩) .content rest :=
  @Reads.tagSelfClose pos opened element [] rest fun _ hd => nomatch hd

theorem Reads.tagEnd_here {opened : Nat} {element : String} {rest : List Char} :
    Reads pos (.tag opened element) ('>' :: rest) (.tagEnd ⟨pos, 1⟩)
      (if isRawText element then .raw opened element else .content) rest :=
  @Reads.tagEnd pos opened element [] rest fun _ hd => nomatch hd

theorem Reads.attributeValue_here {opened : Nat} {element : String} {cs rest : List Char}
    {v : AttributeValue} (h : ReadsValue (pos + 1) cs v rest) :
    Reads pos (.tag opened element) ('=' :: cs) (.attributeValue v ⟨pos, v.writtenLength⟩)
      (.tag opened element) rest :=
  @Reads.attributeValue pos opened element [] cs rest v (fun _ hd => nomatch hd) h

theorem Reads.attributeName_here {opened : Nat} {element : String} {c : Char}
    {name rest : List Char} (hc : isBlank c = false) (h : Clear endsAttributeName (c :: name) rest)
    (hend : endsAttributeName rest = true) :
    Reads pos (.tag opened element) (' ' :: c :: (name ++ rest))
      (.attributeName (String.ofList (c :: name)) (.ofChars (pos + size [' ']) (c :: name)))
      (.tag opened element) rest :=
  @Reads.attributeName pos opened element c [' '] name rest (List.forall_mem_singleton.2 rfl) hc h
    hend

/-- The first of some tokens that were written out is read back, and the others are next. -/
def ReadsBack (pos : Nat) (mode : Mode) (token : Token) (tokens : List Token) : Prop :=
  ∃ token' mode', Reads pos mode (written ((token :: tokens).flatMap Token.marks)) token' mode'
      (written (tokens.flatMap Token.marks)) ∧
    token'.bare = token.bare ∧ Legible mode'.bare tokens

theorem ReadsBack.of_reads {cs : List Char} {token' : Token}
    (hread : Reads pos mode cs token' mode' (written (tokens.flatMap Token.marks)))
    (hcs : written token.marks ++ written (tokens.flatMap Token.marks) = cs)
    (hbare : token'.bare = token.bare) (htokens : Legible mode'.bare tokens) :
    ReadsBack pos mode token tokens := by
  refine ⟨token', mode', ?_, hbare, htokens⟩
  rwa [List.flatMap_cons, written_append, hcs]

/-- The first of some tokens is read back if it does not run into the second. -/
theorem Legible.readsBack (h : Legible mode (token :: tokens)) (pos : Nat)
    (hmode : mode'.bare = mode)
    (hapart : ∀ m ∈ token.marks.getLast?, ∀ m' ∈ (tokens.flatMap Token.marks).head?,
      m.runsInto m' = false) : ReadsBack pos mode' token tokens := by
  cases h with
  | comment hclear htokens =>
      cases Mode.bare_eq_content hmode
      refine .of_reads (.comment (hclear.congr ?_)) (by simp [Token.marks, written]) rfl htokens
      intro c s _ hc
      rwa [endsComment_before]
  | closeTag hinner htokens =>
      cases Mode.bare_eq_content hmode
      exact .of_reads (.closeTag fun h => hinner (mem_of_mem_closingName h))
        (by simp [Token.marks, written]) (by simp [Token.bare]) htokens
  | openTag hc hname htokens =>
      cases Mode.bare_eq_content hmode
      exact .of_reads (.openTag hc hname htokens.ends_tagName) (by simp [Token.marks, written]) rfl
        htokens
  | text hclear hhead htokens =>
      cases Mode.bare_eq_content hmode
      refine .of_reads (.text (hclear.congr fun c s _ hc => ?_) ?_)
        (by simp [Token.marks, written]) rfl htokens
      · rcases htokens.head_content hhead with hnil | ⟨-, more, hmore⟩
        · rwa [hnil]
        · rw [hmore, Bool.eq_false_iff]
          intro h
          rw [List.append_nil, opens_before h] at hc
          cases hc
      · exact (htokens.head_content hhead).imp_right And.left
  | tagSelfClose htokens =>
      obtain ⟨opened, rfl⟩ := Mode.bare_eq_tag hmode
      exact .of_reads .tagSelfClose_here rfl rfl htokens
  | @tagEnd element span _ htokens =>
      obtain ⟨opened, rfl⟩ := Mode.bare_eq_tag hmode
      refine .of_reads .tagEnd_here rfl rfl ?_
      cases hraw : isRawText element <;> simpa [hraw, Mode.bare] using htokens
  | @attributeValue element v span _ hvalue hhead htokens =>
      obtain ⟨opened, rfl⟩ := Mode.bare_eq_tag hmode
      have hrest : v.quote = .unquoted →
          startsWhere endsUnquoted (written (tokens.flatMap Token.marks)) = true := by
        intro hquote
        refine htokens.ends_unquoted hhead (v := v.text) ?_
        rw [← hquote]
        exact hapart _ rfl
      obtain ⟨v', hv', hbare⟩ := hvalue.reads hrest
      exact .of_reads (.attributeValue_here hv')
        (by simp [Token.marks, written]) (by simp [Token.bare, hbare]) htokens
  | attributeName hc hclear htokens =>
      obtain ⟨opened, rfl⟩ := Mode.bare_eq_tag hmode
      have hclear' := htokens.clear_name hclear (hapart _ rfl)
      exact .of_reads (.attributeName_here hc hclear' htokens.ends_name)
        (by simp [Token.marks, written]) rfl htokens
  | @rawText element inner body span span' tokens hraw hclear hbody htokens =>
      obtain ⟨opened, rfl⟩ := Mode.bare_eq_raw hmode
      have hnext : written ((Token.closeTag inner span' :: tokens).flatMap Token.marks) =
          '<' :: '/' :: ((closingName inner).toList ++ '>' ::
            written (tokens.flatMap Token.marks)) := by
        simp [Token.marks, written]
      refine .of_reads (.rawText (hclear.congr fun c s _ hc => ?_) ?_)
        (by rw [written_rawText]) rfl htokens
      · rw [hnext]
        rw [Bool.eq_false_iff, ne_eq, endsRawText_append hraw] at hc ⊢
        exact hc
      · rw [hnext]
        exact endsRawText_of_endsBody hbody _

/-- Tokens no two of which run into each other are read back as they were. -/
theorem Legible.readsAll (h : Legible mode tokens) (pos : Nat) (hmode : mode'.bare = mode)
    (hapart : Apart (tokens.flatMap Token.marks)) : ∃ tokens',
      ReadsAll mode' pos (written (tokens.flatMap Token.marks)) tokens' ∧
        tokens'.map Token.bare = tokens.map Token.bare := by
  induction tokens generalizing mode mode' pos with
  | nil =>
      cases h
      cases Mode.bare_eq_content hmode
      exact ⟨[], .nil, rfl⟩
  | cons token tokens ih =>
      rw [List.flatMap_cons, apart_append] at hapart
      obtain ⟨-, hrest, hpair⟩ := hapart
      obtain ⟨token', mode'', hread, hbare, htokens⟩ := h.readsBack pos hmode hpair
      obtain ⟨tokens', hreads, hmap⟩ := ih htokens _ rfl hrest
      exact ⟨token' :: tokens', .cons hread hreads, congrArg₂ List.cons hbare hmap⟩

end

/-! ## Where two marks run into each other -/

theorem Token.marks_bare (token : Token) : token.bare.marks = token.marks := by
  cases token with
  | closeTag inner span =>
      rw [Token.bare, Token.marks, closingName_closingName]
      rfl
  | _ => rfl

/-- A token has one mark at most. -/
theorem Token.marks_of_getLast? {token : Token} {m : Mark} (h : m ∈ token.marks.getLast?) :
    token.marks = [m] := by
  cases token with
  | rawText content span =>
      rw [Token.marks] at h ⊢
      split at h
      · cases h
      · rename_i hne
        cases h
        exact if_neg hne
  | _ =>
      cases h
      rfl

theorem Token.apart_marks (token : Token) : Apart token.marks := by
  cases hlast : token.marks.getLast? with
  | none =>
      rw [List.getLast?_eq_none_iff.1 hlast]
      exact .nil
  | some m =>
      rw [Token.marks_of_getLast? hlast]
      exact .singleton m

theorem Token.marks_eq {token token' : Token} (h : token.bare = token'.bare) :
    token.marks = token'.marks := by
  rw [← token.marks_bare, h, token'.marks_bare]

section

variable {mode mode' : Mode} {pos opened : Nat} {element : String} {cs rest : List Char}
  {token : Token} {tokens tokens' : List Token}

/-- There is one way to read on. -/
theorem ReadsAll.of_reads (h : ReadsAll mode pos cs tokens)
    (hread : Reads pos mode cs token mode' rest) : ∃ more, tokens = token :: more ∧
      ReadsAll mode' token.span.stop rest more := by
  have hnext := next_eq_found.2 hread
  cases h with
  | nil => cases hnext
  | @cons _ mode₂ _ _ rest₂ token₂ more hread₂ hreads =>
      cases (next_eq_found.2 hread₂).symm.trans hnext
      exact ⟨more, rfl, hreads⟩

/-- A value without quotes takes the `/` of the `/>` after it, and the tag ends with `>`. -/
theorem ReadsAll.endings_value {v : AttributeValue}
    (h : ReadsAll (.tag opened element) pos ('=' :: (v.text.toList ++ '/' :: '>' :: rest)) tokens)
    (hv : v.Legible) (hquote : v.quote = .unquoted) :
    ∃ more, endings (tokens.flatMap Token.marks) = false :: more := by
  obtain ⟨text, quote, span⟩ := v
  cases hquote
  obtain ⟨c, body, htext, hdouble, hsingle, hall⟩ := hv
  have hall' : ∀ d ∈ c :: (body ++ ['/']), endsUnquoted d = false := by
    intro d hd
    rw [← List.cons_append, List.mem_append, List.mem_singleton] at hd
    rcases hd with hd | rfl
    · exact hall d hd
    · rfl
  have hvalue : ReadsValue (pos + 1) (c :: (body ++ ['/'] ++ '>' :: rest)) _ ('>' :: rest) :=
    .unquoted hdouble hsingle hall' (Or.inr rfl)
  have hread : Reads pos (.tag opened element) _ _ _ _ := .attributeValue_here hvalue
  rw [show text.toList = c :: body from htext] at h
  rw [List.append_assoc, List.singleton_append] at hread
  obtain ⟨more, rfl, hmore⟩ := h.of_reads hread
  obtain ⟨more', rfl, -⟩ := hmore.of_reads .tagEnd_here
  exact ⟨_, rfl⟩

/-- An attribute name that ends with `/` makes the `>` after it a `/>`. -/
theorem ReadsAll.endings_name {c : Char} {name : List Char}
    (h : ReadsAll (.tag opened element) pos (' ' :: (c :: name ++ '>' :: rest)) tokens)
    (hc : isBlank c = false) (hclear : Clear endsAttributeName (c :: name) [' '])
    (hlast : (c :: name).getLast? = some '/') :
    ∃ more, endings (tokens.flatMap Token.marks) = true :: more := by
  obtain ⟨before, hbefore⟩ := List.getLast?_eq_some_iff.1 hlast
  rw [hbefore] at h hclear
  cases before with
  | nil =>
      obtain ⟨more, rfl, -⟩ := h.of_reads
        (@Reads.tagSelfClose _ _ _ [' '] _ (List.forall_mem_singleton.2 rfl))
      exact ⟨_, rfl⟩
  | cons d before =>
      obtain ⟨rfl, -⟩ := List.cons.inj hbefore
      have hclear' : Clear endsAttributeName (c :: before) ('/' :: '>' :: rest) :=
        (Clear.append.1 hclear).1.congr fun c s _ hc => by
          rw [endsAttributeName_cons] at hc ⊢
          cases s with
          | nil => exact hc
          | cons d s => exact hc
      have hread : Reads pos (.tag opened element) _ _ _ _ := .attributeName_here hc hclear' rfl
      obtain ⟨more, rfl, hmore⟩ := h.of_reads (by simpa using hread)
      obtain ⟨more', rfl, -⟩ := hmore.of_reads .tagSelfClose_here
      exact ⟨_, rfl⟩

theorem Mark.runsInto_iff {m m' : Mark} : m.runsInto m' = true ↔
    (∃ value, m = .attributeValue .unquoted value ∧ m' = .tagSelfClose) ∨
      ∃ name, m = .attributeName name ∧ m' = .tagEnd ∧ name.toList.getLast? = some '/' := by
  constructor
  · intro h
    unfold Mark.runsInto at h
    split at h
    · exact Or.inl ⟨_, rfl, rfl⟩
    · exact Or.inr ⟨_, rfl, rfl, beq_iff_eq.1 h⟩
    · cases h
  · rintro (⟨value, rfl, rfl⟩ | ⟨name, rfl, rfl, hlast⟩)
    · rfl
    · exact beq_iff_eq.2 hlast

/-- If the first of some tokens runs into the second, the tag that they end is read differently. -/
theorem Legible.endings_clash (h : Legible mode (token :: tokens)) (hmode : mode'.bare = mode)
    {m m' : Mark} (hm : token.marks = [m]) (hm' : m' ∈ (tokens.flatMap Token.marks).head?)
    (hruns : m.runsInto m' = true)
    (hread : ReadsAll mode' pos (written ((token :: tokens).flatMap Token.marks)) tokens') :
    endings (tokens'.flatMap Token.marks) ≠ endings ((token :: tokens).flatMap Token.marks) := by
  obtain ⟨ms, hms⟩ := List.head?_eq_some_iff.1 hm'
  rw [List.flatMap_cons, hm, hms, List.singleton_append] at hread ⊢
  rcases Mark.runsInto_iff.1 hruns with ⟨value, rfl, rfl⟩ | ⟨name, rfl, rfl, hlast⟩
  · cases h with
    | @attributeValue element v span _ hvalue hhead htokens =>
        obtain ⟨opened, rfl⟩ := Mode.bare_eq_tag hmode
        obtain ⟨hquote, rfl⟩ : v.quote = .unquoted ∧ v.text = value := by
          simpa [Token.marks] using hm
        have hchars : written (.attributeValue .unquoted v.text :: .tagSelfClose :: ms) =
            '=' :: (v.text.toList ++ '/' :: '>' :: written ms) := by
          simp [written, Quote.mark]
        rw [hchars] at hread
        obtain ⟨more, hmore⟩ := hread.endings_value hvalue hquote
        rw [hmore]
        intro heq
        cases heq
    | rawText =>
        rw [Token.marks] at hm
        split at hm <;> cases hm
    | _ => cases hm
  · cases h with
    | @attributeName element c name' span _ hc hclear htokens =>
        obtain ⟨opened, rfl⟩ := Mode.bare_eq_tag hmode
        obtain rfl : String.ofList (c :: name') = name := by simpa [Token.marks] using hm
        rw [String.toList_ofList] at hlast
        have hchars : written (.attributeName (String.ofList (c :: name')) :: .tagEnd :: ms) =
            ' ' :: (c :: name' ++ '>' :: written ms) := by
          simp [written]
        rw [hchars] at hread
        obtain ⟨more, hmore⟩ := hread.endings_name hc hclear hlast
        rw [hmore]
        intro heq
        cases heq
    | rawText =>
        rw [Token.marks] at hm
        split at hm <;> cases hm
    | _ => cases hm

/-- From where a mark runs into the next one on, the start tags end differently. -/
theorem Legible.endings_ne (h : Legible mode tokens) (hmode : mode'.bare = mode)
    (hclash : ¬ Apart (tokens.flatMap Token.marks))
    (hread : ReadsAll mode' pos (written (tokens.flatMap Token.marks)) tokens') :
    endings (tokens'.flatMap Token.marks) ≠ endings (tokens.flatMap Token.marks) := by
  induction tokens generalizing mode mode' pos tokens' with
  | nil => exact (hclash .nil).elim
  | cons token tokens ih =>
      by_cases hpair : ∀ m ∈ token.marks.getLast?, ∀ m' ∈ (tokens.flatMap Token.marks).head?,
          m.runsInto m' = false
      · obtain ⟨token', mode'', hread', hbare, htokens⟩ := h.readsBack pos hmode hpair
        obtain ⟨more, rfl, hmore⟩ := hread.of_reads hread'
        have hrest : ¬ Apart (tokens.flatMap Token.marks) := fun hapart =>
          hclash (by rw [List.flatMap_cons, apart_append]; exact ⟨token.apart_marks, hapart, hpair⟩)
        rw [List.flatMap_cons, List.flatMap_cons, endings_append, endings_append,
          Token.marks_eq hbare]
        intro heq
        exact ih htokens rfl hrest hmore (List.append_cancel_left heq)
      · simp only [not_forall, Bool.not_eq_false] at hpair
        obtain ⟨m, hm, m', hm', hruns⟩ := hpair
        exact h.endings_clash hmode (Token.marks_of_getLast? hm) hm'
          hruns hread

end

end TypedTemplate.Markup
