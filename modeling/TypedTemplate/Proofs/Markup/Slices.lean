/-
# `TypedTemplate.Proofs.Markup.Slices` — tokens cover their characters

A token is found with the span of its own characters, and nothing stands before it but the
blank space in a start tag (`Reads.covers`).  So its span cuts just these characters out of
the text (`ReadsTo.slice`), and the tokens stand one after the other (`ReadsTo.ordered`).
-/
import TypedTemplate.Proofs.Markup.Reading
import TypedTemplate.Proofs.Text.Offsets

namespace TypedTemplate.Markup

open Text

/-- A value as it is written, its quotes included. -/
def AttributeValue.chars (value : AttributeValue) : List Char :=
  value.quote.mark.toList ++ value.text.toList ++ value.quote.mark.toList

/-- A token as it is written. -/
def Token.chars : Token → List Char
  | .text content _ => content.toList
  | .comment content _ => content.toList
  | .openTag name _ => '<' :: name.toList
  | .attributeName name _ => name.toList
  | .attributeValue value _ => '=' :: value.chars
  | .tagEnd _ => ['>']
  | .tagSelfClose _ => ['/', '>']
  | .rawText content _ => content.toList
  | .closeTag inner _ => '<' :: '/' :: (inner.toList ++ ['>'])

variable {mode mode' : Mode} {pos pos' : Nat} {cs rest : List Char} {token : Token}
  {tokens : List Token}

theorem ReadsValue.covers {v : AttributeValue} (h : ReadsValue pos cs v rest) :
    cs = v.chars ++ rest ∧ v.writtenLength = size ('=' :: v.chars) := by
  have hequals : Char.utf8Size '=' = 1 := rfl
  have hdouble : Char.utf8Size '"' = 1 := rfl
  have hsingle : Char.utf8Size '\'' = 1 := rfl
  cases h with
  | double hbody =>
      simp [AttributeValue.chars, AttributeValue.writtenLength, Quote.mark, Span.ofChars, hequals,
        hdouble]
      omega
  | single hbody =>
      simp [AttributeValue.chars, AttributeValue.writtenLength, Quote.mark, Span.ofChars, hequals,
        hsingle]
      omega
  | unquoted hd hs hbody hrest =>
      simp [AttributeValue.chars, AttributeValue.writtenLength, Quote.mark, Span.ofChars, hequals]
      omega

/-- A token has the span of its characters, and nothing but blank space is skipped before it. -/
theorem Reads.covers (h : Reads pos mode cs token mode' rest) :
    ∃ blanks, (∀ c ∈ blanks, isBlank c = true) ∧ cs = blanks ++ (token.chars ++ rest) ∧
      token.span = .ofChars (pos + size blanks) token.chars := by
  have hless : Char.utf8Size '<' = 1 := rfl
  have hgreater : Char.utf8Size '>' = 1 := rfl
  have hslash : Char.utf8Size '/' = 1 := rfl
  have hnone : ∀ c ∈ [], isBlank c = true := List.forall_mem_nil _
  cases h with
  | comment hclear =>
      exact ⟨[], hnone, by simp [Token.chars], by simp [Token.chars, Token.span]⟩
  | closeTag hinner =>
      refine ⟨[], hnone, by simp [Token.chars], ?_⟩
      simp [Token.chars, Token.span, Span.ofChars, hless, hgreater, hslash]
      omega
  | openTag hc hname hrest =>
      refine ⟨[], hnone, by simp [Token.chars], ?_⟩
      simp [Token.chars, Token.span, Span.ofChars, hless]
      omega
  | text hclear hrest =>
      exact ⟨[], hnone, by simp [Token.chars], by simp [Token.chars, Token.span]⟩
  | tagSelfClose hblanks => exact ⟨_, hblanks, rfl, rfl⟩
  | tagEnd hblanks => exact ⟨_, hblanks, rfl, rfl⟩
  | attributeValue hblanks hvalue =>
      obtain ⟨rfl, hlength⟩ := hvalue.covers
      refine ⟨_, hblanks, rfl, ?_⟩
      rw [Token.span, hlength]
      rfl
  | attributeName hblanks hc hclear hrest =>
      exact ⟨_, hblanks, by simp [Token.chars], by simp [Token.chars, Token.span]⟩
  | rawText hclear hrest =>
      exact ⟨[], hnone, by simp [Token.chars], by simp [Token.chars, Token.span]⟩

/-- The reader goes on where the token ends. -/
theorem Reads.goes_on (h : Reads pos mode cs token mode' rest) {text : List Char}
    (hcs : dropBytes? pos text = some cs) :
    dropBytes? token.span.stop text = some rest := by
  obtain ⟨blanks, -, rfl, hspan⟩ := h.covers
  have hstop : token.span.stop = pos + size (blanks ++ token.chars) := by
    rw [hspan, size_append, ← Nat.add_assoc]
    rfl
  rw [hstop, dropBytes?_add hcs, ← List.append_assoc]
  exact dropBytes?_append (blanks ++ token.chars) rest

/-- The span of a token cuts its characters out of the text. -/
theorem ReadsTo.slice (h : ReadsTo mode pos cs tokens mode' pos' rest) {earlier : List Char}
    (hpos : pos = size earlier) :
    ∀ token ∈ tokens, slice? (earlier ++ cs) token.span = some token.chars := by
  induction h generalizing earlier with
  | nil => exact List.forall_mem_nil _
  | @cons mode mode' mode'' pos pos'' cs rest rest' token tokens hread _ ih =>
      obtain ⟨blanks, -, rfl, hspan⟩ := hread.covers
      have hstart : pos + size blanks = size (earlier ++ blanks) := by rw [size_append, hpos]
      have hstop : token.span.stop = size (earlier ++ blanks ++ token.chars) := by
        rw [hspan, hstart, size_append (earlier ++ blanks)]
        rfl
      have htext : earlier ++ (blanks ++ (token.chars ++ rest)) =
          earlier ++ blanks ++ token.chars ++ rest := by
        simp only [List.append_assoc]
      rw [htext]
      refine List.forall_mem_cons.2 ⟨?_, ih hstop⟩
      rw [hspan, hstart]
      exact slice?_append (earlier ++ blanks) token.chars rest

theorem ReadsTo.length (h : ReadsTo mode pos cs tokens mode' pos' rest) :
    ∀ token ∈ tokens, token.span.length = size token.chars := by
  induction h with
  | nil => exact List.forall_mem_nil _
  | cons hread _ ih =>
      obtain ⟨blanks, -, -, hspan⟩ := hread.covers
      exact List.forall_mem_cons.2 ⟨congrArg Span.length hspan, ih⟩

/-- The tokens stand one after the other. -/
theorem ReadsTo.ordered (h : ReadsTo mode pos cs tokens mode' pos' rest) :
    (∀ token ∈ tokens, pos ≤ token.span.start) ∧
      tokens.Pairwise fun a b => a.span.stop ≤ b.span.start := by
  induction h with
  | nil => exact ⟨List.forall_mem_nil _, List.Pairwise.nil⟩
  | @cons mode mode' mode'' pos pos'' cs rest rest' token tokens hread _ ih =>
      obtain ⟨blanks, -, -, hspan⟩ := hread.covers
      have hstart : pos ≤ token.span.start := by
        rw [hspan]
        exact Nat.le_add_right pos (size blanks)
      have hstop : token.span.start ≤ token.span.stop := Nat.le_add_right _ _
      refine ⟨List.forall_mem_cons.2 ⟨hstart, ?_⟩, List.pairwise_cons.2 ih⟩
      intro later hlater
      exact hstart.trans (hstop.trans (ih.1 later hlater))

end TypedTemplate.Markup
