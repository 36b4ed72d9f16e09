/-
# `TypedTemplate.Proofs.Markup.Reading` — a whole text, read and built into a tree

`ReadsAll` strings the steps of the reader together; it holds of the tokens of a text
exactly if the text can be divided to its end (`scanFrom_eq`).  A document was read if
there are such tokens and the builder takes them all (`Document.read_ok`).

What one token preserves, with the reader and the builder at the same place, holds after any
number of tokens (`ReadsTo.preserves`) and so at the end of the text (`ReadsAll.preserves`).
-/
import TypedTemplate.Proofs.Except
import TypedTemplate.Proofs.Markup.Reads
import TypedTemplate.Markup.Parse

namespace TypedTemplate.Markup

/-- The tokens of the characters from `pos` on, up to the end. -/
inductive ReadsAll : Mode → Nat → List Char → List Token → Prop where
  | nil {pos : Nat} : ReadsAll .content pos [] []
  | cons {mode mode' : Mode} {pos : Nat} {cs rest : List Char} {token : Token}
      {tokens : List Token} : Reads pos mode cs token mode' rest →
      ReadsAll mode' token.span.stop rest tokens → ReadsAll mode pos cs (token :: tokens)

theorem next_finished {mode : Mode} {pos : Nat} {cs : List Char}
    (h : next mode pos cs = .finished) : mode = .content ∧ cs = [] := by
  cases mode with
  | content =>
      refine ⟨rfl, ?_⟩
      simp only [next, nextContent] at h
      split at h
      · split at h <;> cases h
      · split at h <;> cases h
      · cases h
      · split at h
        · rfl
        · cases h
  | tag opened element =>
      simp only [next, nextInTag, nextPart] at h
      split at h
      · cases h
      · cases h
      · cases h
      · split at h <;> cases h
      · split at h <;> cases h
  | raw opened element =>
      simp only [next, nextRaw] at h
      split at h <;> cases h

theorem scanFrom_found {mode mode' : Mode} {pos : Nat} {cs rest : List Char} {token : Token}
    (h : next mode pos cs = .found token mode' rest) :
    scanFrom mode pos cs =
      ⟨token :: (scanFrom mode' token.span.stop rest).tokens,
        (scanFrom mode' token.span.stop rest).fault⟩ := by
  rw [scanFrom, h]

/-- A text that can be divided to its end is divided step by step. -/
theorem scanFrom_eq {mode : Mode} {pos : Nat} {cs : List Char} {tokens : List Token} :
    scanFrom mode pos cs = ⟨tokens, none⟩ ↔ ReadsAll mode pos cs tokens := by
  constructor
  · intro h
    induction mode, pos, cs using scanFrom.induct generalizing tokens with
    | case1 mode pos cs hnext =>
        rw [scanFrom, hnext] at h
        cases h
        obtain ⟨rfl, rfl⟩ := next_finished hnext
        exact .nil
    | case2 mode pos cs fault hnext =>
        rw [scanFrom, hnext] at h
        cases h
    | case3 mode pos cs token mode' rest hnext ih =>
        rw [scanFrom_found hnext, Tokens.mk.injEq] at h
        obtain ⟨rfl, hfault⟩ := h
        exact .cons (next_eq_found.1 hnext) (ih (by rw [← hfault]))
  · intro h
    induction h with
    | nil => rw [scanFrom]; rfl
    | cons hread _ ih => rw [scanFrom_found (next_eq_found.2 hread), ih]

section

variable {config : Config} {token : Token} {tokens : List Token} {b b' : Builder}

theorem Builder.addAll_cons : b.addAll config (token :: tokens) =
    (b.add config token >>= fun next => next.addAll config tokens) := by
  rw [Builder.addAll]
  cases b.add config token <;> rfl

theorem Builder.addAll_cons_ok : b.addAll config (token :: tokens) = .ok b' ↔
    ∃ next, b.add config token = .ok next ∧ next.addAll config tokens = .ok b' := by
  rw [addAll_cons, Except.bind_eq_ok]

/-- The builder fails at the first token that it does not take. -/
theorem Builder.addAll_eq_error {fault : Fault StructuralCause} :
    b.addAll config tokens = .error fault ↔ ∃ before token after next,
      tokens = before ++ token :: after ∧ b.addAll config before = .ok next ∧
        next.add config token = .error fault := by
  induction tokens generalizing b with
  | nil =>
      constructor
      · intro h
        cases h
      · rintro ⟨before, token, after, next, hnil, -⟩
        cases before <;> cases hnil
  | cons first tokens ih =>
      rw [addAll_cons, Except.bind_eq_error]
      constructor
      · rintro (hfirst | ⟨next, hfirst, hrest⟩)
        · exact ⟨[], first, tokens, b, rfl, rfl, hfirst⟩
        · obtain ⟨before, token, after, last, rfl, hbefore, htoken⟩ := ih.1 hrest
          exact ⟨first :: before, token, after, last, rfl,
            addAll_cons_ok.2 ⟨next, hfirst, hbefore⟩, htoken⟩
      · rintro ⟨before, token, after, last, htokens, hbefore, htoken⟩
        cases before with
        | nil =>
            cases htokens
            cases hbefore
            exact Or.inl htoken
        | cons first' before =>
            cases htokens
            obtain ⟨next, hfirst, hrest⟩ := addAll_cons_ok.1 hbefore
            exact Or.inr ⟨next, hfirst, ih.2 ⟨before, token, after, last, rfl, hrest, htoken⟩⟩

end

/-! ## Part of a text -/

/-- Some tokens, and the places of the reader before and after them. -/
inductive ReadsTo : Mode → Nat → List Char → List Token → Mode → Nat → List Char → Prop where
  | nil {mode : Mode} {pos : Nat} {cs : List Char} : ReadsTo mode pos cs [] mode pos cs
  | cons {mode mode' mode'' : Mode} {pos pos'' : Nat} {cs rest rest' : List Char} {token : Token}
      {tokens : List Token} : Reads pos mode cs token mode' rest →
      ReadsTo mode' token.span.stop rest tokens mode'' pos'' rest' →
      ReadsTo mode pos cs (token :: tokens) mode'' pos'' rest'

theorem ReadsAll.readsTo {mode : Mode} {pos : Nat} {cs : List Char} {tokens : List Token}
    (h : ReadsAll mode pos cs tokens) : ∃ pos', ReadsTo mode pos cs tokens .content pos' [] := by
  induction h with
  | @nil pos => exact ⟨pos, .nil⟩
  | cons hread _ ih =>
      obtain ⟨pos', hto⟩ := ih
      exact ⟨pos', .cons hread hto⟩

/-- The first tokens of a text, whether or not it can be divided to its end. -/
theorem ReadsTo.of_scanFrom {mode : Mode} {pos : Nat} {cs : List Char} {before after : List Token}
    (h : (scanFrom mode pos cs).tokens = before ++ after) :
    ∃ mode' pos' rest, ReadsTo mode pos cs before mode' pos' rest := by
  induction before generalizing mode pos cs with
  | nil => exact ⟨mode, pos, cs, .nil⟩
  | cons token before ih =>
      cases hnext : next mode pos cs with
      | finished =>
          rw [scanFrom, hnext] at h
          cases h
      | failed fault =>
          rw [scanFrom, hnext] at h
          cases h
      | found token' mode' rest =>
          rw [scanFrom_found hnext] at h
          obtain ⟨rfl, hrest⟩ := List.cons.inj h
          obtain ⟨mode'', pos'', rest', hto⟩ := ih hrest
          exact ⟨mode'', pos'', rest', .cons (next_eq_found.1 hnext) hto⟩

/-- A property of the tokens so far, last first, and of the place of reader and builder after them
that each token preserves. -/
theorem ReadsTo.preserves {config : Config} {I : List Token → Mode → List Char → Builder → Prop}
    (hstep : ∀ {before mode mode' pos cs rest token b b'}, Reads pos mode cs token mode' rest →
      I before mode cs b → Builder.add config b token = .ok b' → I (token :: before) mode' rest b')
    {mode mode' : Mode} {pos pos' : Nat} {cs rest : List Char} {tokens : List Token}
    (h : ReadsTo mode pos cs tokens mode' pos' rest) (before : List Token) {b b' : Builder}
    (hb : I before mode cs b) (hadd : b.addAll config tokens = .ok b') :
    I (tokens.reverse ++ before) mode' rest b' := by
  induction h generalizing before b with
  | nil =>
      cases hadd
      exact hb
  | cons hread _ ih =>
      obtain ⟨next, hnext, hrest⟩ := Builder.addAll_cons_ok.1 hadd
      rw [List.reverse_cons, List.append_assoc]
      exact ih _ (hstep hread hb hnext) hrest

/-- A property of the place of reader and builder that each token preserves. -/
theorem ReadsAll.preserves {config : Config} {I : Mode → List Char → Builder → Prop}
    (hstep : ∀ {mode mode' pos cs rest token b b'}, Reads pos mode cs token mode' rest →
      I mode cs b → Builder.add config b token = .ok b' → I mode' rest b')
    {mode : Mode} {pos : Nat} {cs : List Char} {tokens : List Token}
    (h : ReadsAll mode pos cs tokens) {b b' : Builder} (hb : I mode cs b)
    (hadd : b.addAll config tokens = .ok b') : I .content [] b' := by
  obtain ⟨pos', hto⟩ := h.readsTo
  exact hto.preserves (I := fun _ => I) hstep [] hb hadd

/-! ## Documents -/

theorem Document.ofTokens_ok {config : Config} {ts : Tokens} {document : Document} :
    Document.ofTokens config ts = .ok document ↔ ts.fault = none ∧
      ∃ b, Builder.addAll config {} ts.tokens = .ok b ∧ b.finish config = .ok document := by
  unfold Document.ofTokens
  split
  · rename_i hadd
    simp [hadd]
  · rename_i hadd hfault
    simp [hfault]
  · rename_i b hadd hfault
    rw [hadd, hfault]
    cases hfin : b.finish config <;> simp [hfin]

/-- A document was read if the text has tokens and the builder takes them all. -/
theorem Document.read_ok {config : Config} {source : Source} {document : Document} :
    Document.read config source = .ok document ↔
      ∃ tokens b, ReadsAll .content 0 source.chars tokens ∧
        Builder.addAll config {} tokens = .ok b ∧ b.finish config = .ok document := by
  rw [Document.read, Document.ofTokens_ok]
  constructor
  · rintro ⟨hfault, b, hadd, hfin⟩
    refine ⟨_, b, scanFrom_eq.1 ?_, hadd, hfin⟩
    rw [← hfault]
    rfl
  · rintro ⟨tokens, b, hreads, hadd, hfin⟩
    have hscan : scan source.chars = ⟨tokens, none⟩ := scanFrom_eq.2 hreads
    rw [hscan]
    exact ⟨rfl, b, hadd, hfin⟩

/-- The tokens of a text that was read lead to its end. -/
theorem Document.read_tokens {config : Config} {source : Source} {document : Document}
    (h : Document.read config source = .ok document) : ∃ pos b,
      ReadsTo .content 0 source.chars (scan source.chars).tokens .content pos [] ∧
        Builder.addAll config {} (scan source.chars).tokens = .ok b ∧
          b.finish config = .ok document := by
  obtain ⟨tokens, b, hreads, hadd, hfinish⟩ := Document.read_ok.1 h
  have hscan : scan source.chars = ⟨tokens, none⟩ := scanFrom_eq.2 hreads
  obtain ⟨pos, hto⟩ := hreads.readsTo
  rw [hscan]
  exact ⟨pos, b, hto, hadd, hfinish⟩

end TypedTemplate.Markup
