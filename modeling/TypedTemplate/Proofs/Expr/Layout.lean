/-
# `TypedTemplate.Proofs.Expr.Layout` — where the tokens of an expression stand

`Laid pos cs ts` says that the characters from `pos` on are the tokens `ts`, each with the
span of its own characters, and blank space around them; it is what dividing an expression
into tokens finds (`tokensFrom_eq_ok`).  So each token covers its characters in the excerpt
(`Laid.covers`), and the tokens stand one after the other (`Laid.ordered`).

A run of tokens can be cut out: the characters from the first of them to the last, taken by
themselves, are divided into just these tokens (`Laid.part`), because the end of a text ends
a token wherever anything else does.  Where dividing fails, the fault covers characters too
(`tokensFrom_error`).
-/
import TypedTemplate.Proofs.Expr.Lexeme
import TypedTemplate.Proofs.Text.Slice

namespace TypedTemplate

open Text

/-- The span covers the characters `taken` of the excerpt. -/
def Excerpt.Covers (e : Excerpt) (s : Span) (taken : List Char) : Prop :=
  ∃ before after, e.chars = before ++ taken ++ after ∧ s = .ofChars (e.offset + size before) taken

/-- What a span covers in an excerpt it covers in the text that the excerpt is a part of. -/
theorem Excerpt.Covers.slice {e : Excerpt} {s : Span} {taken cs : List Char} (h : e.Covers s taken)
    (he : slice? cs e.span = some e.chars) : slice? cs s = some taken := by
  obtain ⟨before, after, hchars, rfl⟩ := h
  exact slice?_slice? he (slice?_eq_some.2 ⟨before, after, hchars, rfl⟩)

/-- The characters are found in the excerpt itself as well, counting from where it begins. -/
theorem Excerpt.Covers.slice_chars {e : Excerpt} {s : Span} {taken : List Char}
    (h : e.Covers s taken) : slice? e.chars ⟨s.start - e.offset, s.length⟩ = some taken := by
  obtain ⟨before, after, hchars, rfl⟩ := h
  have hstart : e.offset + size before - e.offset = size before := Nat.add_sub_cancel_left _ _
  exact slice?_eq_some.2 ⟨before, after, hchars, by rw [Span.ofChars, hstart]; rfl⟩

namespace Expr

variable {pos : Nat} {cs : List Char} {ts : List Token} {t : Token}

/-- The characters from `pos` on are these tokens, with blank space around them. -/
inductive Laid : Nat → List Char → List Token → Prop where
  | nil {pos : Nat} {blanks : List Char} : (∀ c ∈ blanks, isBlank c = true) → Laid pos blanks []
  | cons {pos : Nat} {blanks taken rest : List Char} {t : Token} {ts : List Token} :
      (∀ c ∈ blanks, isBlank c = true) → Lexeme taken t.kind rest →
      t.span = .ofChars (pos + size blanks) taken → Laid t.span.stop rest ts →
      Laid pos (blanks ++ (taken ++ rest)) (t :: ts)

theorem tokensFrom_blanks {blanks : List Char} (h : ∀ c ∈ blanks, isBlank c = true) (pos : Nat)
    (cs : List Char) : tokensFrom pos (blanks ++ cs) = tokensFrom (pos + size blanks) cs := by
  induction blanks generalizing pos with
  | nil => rfl
  | cons c blanks ih =>
      obtain ⟨hc, hblanks⟩ := List.forall_mem_cons.1 h
      rw [List.cons_append, tokensFrom_cons, if_pos hc, ih hblanks, size_cons, Nat.add_assoc]

/-- Blank space before the first token counts for nothing. -/
theorem Laid.blank {c : Char} (hc : isBlank c = true) (h : Laid (pos + c.utf8Size) cs ts) :
    Laid pos (c :: cs) ts := by
  cases h with
  | nil hblanks => exact .nil (List.forall_mem_cons.2 ⟨hc, hblanks⟩)
  | @cons _ blanks taken rest t ts hblanks hlexeme hspan hrest =>
      rw [← List.cons_append]
      exact .cons (List.forall_mem_cons.2 ⟨hc, hblanks⟩) hlexeme
        (by rw [hspan, size_cons, Nat.add_assoc]) hrest

/-- The tokens of an expression are laid out in it, and nothing else is. -/
theorem tokensFrom_eq_ok : tokensFrom pos cs = .ok ts ↔ Laid pos cs ts := by
  constructor
  · intro h
    induction pos, cs using tokensFrom.induct generalizing ts with
    | case1 pos =>
        rw [tokensFrom] at h
        cases h
        exact .nil (List.forall_mem_nil _)
    | case2 pos c cs hblank ih =>
        rw [tokensFrom_cons, if_pos hblank] at h
        exact .blank hblank (ih h)
    | case3 pos c cs hblank fault hlexeme =>
        rw [tokensFrom_cons, if_neg hblank, hlexeme] at h
        cases h
    | case4 pos c cs hblank token rest hlexeme ih =>
        rw [tokensFrom_cons, if_neg hblank, hlexeme] at h
        obtain ⟨us, hus, rfl⟩ := Except.map_eq_ok.1 (show Except.map _ _ = _ from h)
        obtain ⟨taken, htaken, hkind, hspan⟩ := lexeme_eq_ok.1 hlexeme
        rw [htaken, ← List.nil_append (taken ++ rest)]
        exact .cons (List.forall_mem_nil _) hkind hspan (ih hus)
  · intro h
    induction h with
    | @nil pos blanks hblanks =>
        have hnil := tokensFrom_blanks hblanks pos []
        rw [List.append_nil] at hnil
        rw [hnil, tokensFrom]
    | @cons pos blanks taken rest t ts hblanks hlexeme hspan _ ih =>
        obtain ⟨c, cs, rfl⟩ := List.exists_cons_of_ne_nil hlexeme.ne_nil
        have hfound : lexeme (pos + size blanks) c (cs ++ rest) = .ok (t, rest) :=
          lexeme_eq_ok.2 ⟨c :: cs, rfl, hlexeme, hspan⟩
        have hblank := Bool.eq_false_iff.1 (hlexeme.not_isBlank rfl)
        rw [tokensFrom_blanks hblanks, List.cons_append, tokensFrom_cons, if_neg hblank, hfound]
        show (tokensFrom t.span.stop rest).map _ = _
        rw [ih]
        rfl

theorem tokens_eq_ok {e : Excerpt} : tokens e = .ok ts ↔ Laid e.offset e.chars ts :=
  tokensFrom_eq_ok

namespace Laid

variable {before after core : List Token} {first last : Token}

/-- What stands at a token and after it. -/
theorem drop (h : Laid pos cs (before ++ t :: after)) : ∃ skipped taken rest,
    cs = skipped ++ (taken ++ rest) ∧ t.span = .ofChars (pos + size skipped) taken ∧
      Lexeme taken t.kind rest ∧ Laid t.span.stop rest after := by
  induction before generalizing pos cs with
  | nil =>
      cases h with
      | cons _ hlexeme hspan hrest => exact ⟨_, _, _, rfl, hspan, hlexeme, hrest⟩
  | cons u before ih =>
      cases h with
      | @cons _ blanks taken rest _ _ _ _ hspan hrest =>
          obtain ⟨skipped, taken', rest', rfl, hspan', hlexeme, hrest'⟩ := ih hrest
          refine ⟨blanks ++ (taken ++ skipped), taken', rest', by simp, ?_, hlexeme, hrest'⟩
          rw [hspan', hspan]
          simp only [Span.ofChars, Span.stop, size_append, Nat.add_assoc]

/-- What stands up to the end of a token is divided in the same way if nothing comes after it. -/
theorem take (h : Laid pos cs (before ++ t :: after)) : ∃ kept rest,
    cs = kept ++ rest ∧ Laid pos kept (before ++ [t]) ∧ t.span.stop = pos + size kept := by
  have hcut {taken kept rest : List Char} {kind : TokenKind} (hlexeme : Lexeme taken kind rest)
      (hkept : kept <+: rest) : Lexeme taken kind kept := by
    have hcut := hlexeme.cut hkept (Or.inl rfl)
    rwa [List.append_nil] at hcut
  induction before generalizing pos cs with
  | nil =>
      cases h with
      | @cons _ blanks taken rest _ _ hblanks hlexeme hspan _ =>
          refine ⟨blanks ++ (taken ++ []), rest, by simp, ?_, ?_⟩
          · exact .cons hblanks (hcut hlexeme List.nil_prefix) hspan (.nil (List.forall_mem_nil _))
          · rw [hspan]
            simp only [Span.ofChars, Span.stop, size_append, size_nil, Nat.add_assoc, Nat.add_zero]
  | cons u before ih =>
      cases h with
      | @cons _ blanks taken rest _ _ hblanks hlexeme hspan hrest =>
          obtain ⟨kept, rest, rfl, hkept, hstop⟩ := ih hrest
          refine ⟨blanks ++ (taken ++ kept), rest, by simp, ?_, ?_⟩
          · exact .cons hblanks (hcut hlexeme (List.prefix_append kept rest)) hspan hkept
          · rw [hstop, hspan]
            simp only [Span.ofChars, Span.stop, size_append, Nat.add_assoc]

/-- A run of tokens, taken by itself. -/
theorem part (h : Laid pos cs (before ++ (core ++ after))) (hfirst : core.head? = some first)
    (hlast : core.getLast? = some last) : ∃ skipped kept rest,
      cs = skipped ++ kept ++ rest ∧ first.span.start = pos + size skipped ∧
        last.span.stop = first.span.start + size kept ∧ Laid first.span.start kept core := by
  obtain ⟨tail, rfl⟩ := List.head?_eq_some_iff.1 hfirst
  obtain ⟨skipped, taken, rest, rfl, hspan, hlexeme, hrest⟩ := h.drop
  have hlaid : Laid first.span.start ([] ++ (taken ++ rest)) (first :: (tail ++ after)) :=
    .cons (List.forall_mem_nil _) hlexeme (by rw [hspan]; rfl) hrest
  obtain ⟨init, hinit⟩ := List.getLast?_eq_some_iff.1 hlast
  rw [← List.cons_append, hinit, List.append_assoc] at hlaid
  obtain ⟨kept, rest', hkept, hlaid', hstop⟩ := hlaid.take
  rw [List.nil_append] at hkept
  refine ⟨skipped, kept, rest', by rw [hkept, List.append_assoc], by rw [hspan]; rfl, hstop, ?_⟩
  rwa [hinit]

/-- A token covers its characters, and it ends where it does because of what comes after them. -/
theorem covers {e : Excerpt} (h : Laid e.offset e.chars ts) (ht : t ∈ ts) : ∃ taken,
    e.Covers t.span taken ∧ ∃ rest, Lexeme taken t.kind rest := by
  obtain ⟨before, after, rfl⟩ := List.append_of_mem ht
  obtain ⟨skipped, taken, rest, hchars, hspan, hlexeme, -⟩ := h.drop
  refine ⟨taken, ⟨skipped, rest, ?_, hspan⟩, rest, hlexeme⟩
  rw [hchars, List.append_assoc]

/-- Tokens stand one after the other. -/
theorem ordered (h : Laid pos cs ts) : (∀ t ∈ ts, pos ≤ t.span.start) ∧
    ts.Pairwise fun a b => a.span.stop ≤ b.span.start := by
  induction h with
  | nil => exact ⟨List.forall_mem_nil _, List.Pairwise.nil⟩
  | @cons pos blanks taken rest t ts _ _ hspan _ ih =>
      have hstart : pos ≤ t.span.start := by
        rw [hspan]
        exact Nat.le_add_right pos (size blanks)
      refine ⟨List.forall_mem_cons.2 ⟨hstart, fun later hlater => ?_⟩, List.pairwise_cons.2 ih⟩
      have hlength : t.span.start ≤ t.span.stop := Nat.le_add_right _ _
      exact hstart.trans (hlength.trans (ih.1 later hlater))

end Laid

/-! ## Where dividing fails -/

/-- The fault of a token that is not one covers characters, from its first one on. -/
theorem lexeme_error {c : Char} {fault : Fault Cause} (h : lexeme pos c cs = .error fault) :
    ∃ taken rest, c :: cs = taken ++ rest ∧ fault.span = .ofChars pos taken := by
  unfold lexeme at h
  split at h
  · cases h
  · split at h
    · rename_i hquote
      split at h
      · cases h
      · cases h
        refine ⟨[c], cs, rfl, ?_⟩
        have hsize : c.utf8Size = 1 := by rcases hquote with rfl | rfl <;> rfl
        rw [Span.ofChars, size_cons, size_nil, hsize]
    · split at h
      · unfold number at h
        dsimp only at h
        split at h
        · cases h
        · cases h
          by_cases hminus : c = '-'
          · subst hminus
            rw [if_pos rfl]
            exact ⟨_, _, (Numeral.chars_read true cs).symm, rfl⟩
          · rw [if_neg hminus]
            exact ⟨_, _, (Numeral.chars_read false (c :: cs)).symm, rfl⟩
      · split at h
        · cases h
        · cases h
          refine ⟨[c], cs, rfl, ?_⟩
          rw [Span.ofChars, size_cons, size_nil, Nat.add_zero]

theorem tokensFrom_error {fault : Fault Cause} (h : tokensFrom pos cs = .error fault) :
    ∃ skipped taken rest, cs = skipped ++ taken ++ rest ∧
      fault.span = .ofChars (pos + size skipped) taken := by
  induction pos, cs using tokensFrom.induct with
  | case1 pos =>
      rw [tokensFrom] at h
      cases h
  | case2 pos c cs hblank ih =>
      rw [tokensFrom_cons, if_pos hblank] at h
      obtain ⟨skipped, taken, rest, rfl, hspan⟩ := ih h
      exact ⟨c :: skipped, taken, rest, rfl, by rw [hspan, size_cons, Nat.add_assoc]⟩
  | case3 pos c cs hblank fault' hlexeme =>
      rw [tokensFrom_cons, if_neg hblank, hlexeme] at h
      cases h
      obtain ⟨taken, rest, htaken, hspan⟩ := lexeme_error hlexeme
      exact ⟨[], taken, rest, htaken, hspan⟩
  | case4 pos c cs hblank token rest hlexeme ih =>
      rw [tokensFrom_cons, if_neg hblank, hlexeme] at h
      have herror : tokensFrom token.span.stop rest = .error fault := Except.map_eq_error.1 h
      obtain ⟨first, hfirst, -, hspan⟩ := lexeme_eq_ok.1 hlexeme
      obtain ⟨skipped, taken, left, rfl, hfault⟩ := ih herror
      refine ⟨first ++ skipped, taken, left, by rw [hfirst]; simp, ?_⟩
      rw [hfault, hspan]
      simp only [Span.ofChars, Span.stop, size_append, Nat.add_assoc]

end Expr

end TypedTemplate
