/-
# `TypedTemplate.Proofs.Fragment.Splitting` — text and expressions are divided in step

Character data is divided before anything is known of the expressions in it.  The pieces that it
is compiled to come from parts that make up the data again, and `#` and a brace begin an
expression wherever they stand (`partsPieces_runs`).

Where an expression ends is decided by `untilBrace`, which looks for nothing but quotes and
backslashes; what the expression is made of is decided by `tokens`.  They agree on where a string
literal is.  If the one is back in code at the end of some characters, then every literal that
the other begins in them ends in them (`tokensFrom_unterminated`); and if the other divides some
characters into tokens, the one comes back to code at their end and has met no brace, so that a
brace after them is the one that it finds (`tokensFrom_passes`).
-/
import TypedTemplate.Proofs.Fragment.Excerpts
import TypedTemplate.Proofs.Fragment.Steps

namespace TypedTemplate

namespace Interpolation

open Text

/-! ## The parts make up the text -/

/-- The characters of a part. -/
def Part.chars : Part → List Char
  | .plain cs => cs
  | .code e => opener ++ e.chars ++ ['\x7d']
  | .unterminated _ => opener

/-- The piece that a part is compiled to: text in which no expression begins, or the term of an
expression. -/
inductive Part.Gives (c : Compiler) (scope : Scope) : Part → Fragment → Prop
  | plain {cs : List Char} : ¬ opener <:+: cs →
      Gives c scope (.plain cs) (.static (String.ofList cs))
  | code {e : Excerpt} {t : Term} : Term.read c.source scope e = .ok t →
      Gives c scope (.code e) (.interpolation t c.config.escaping)

theorem not_infix_of_clear {a b : List Char} (h : Clear begins a b) : ¬ opener <:+: a := by
  rintro ⟨x, y, rfl⟩
  obtain ⟨more, hmore⟩ := h.prefix_of (x := x) (y := opener ++ (y ++ b)) (by simp) rfl
  have hlength := congrArg List.length hmore
  simp [opener] at hlength

/-- The pieces of character data come from parts of it that leave nothing out. -/
theorem partsPieces_runs {c : Compiler} {scope : Scope} {pos : Nat} {cs : List Char}
    {pieces : List Fragment} (h : c.partsPieces scope (parts pos cs) = .ok pieces) :
    List.Forall₂ (Part.Gives c scope) (parts pos cs) pieces ∧
      (parts pos cs).flatMap Part.chars = cs := by
  fun_induction parts pos cs generalizing pieces with
  | case1 pos cs hcut =>
      obtain ⟨_, _, hplain, hnil, rfl⟩ := Compiler.partsPieces_cons_ok.1 h
      cases Compiler.plain_ok.1 hplain
      cases hnil
      exact ⟨.cons (.plain (not_infix_of_clear (cut?_eq_none.1 hcut))) .nil, by simp [Part.chars]⟩
  | case2 pos cs before rest hcut opened =>
      obtain ⟨_, _, -, hmore, rfl⟩ := Compiler.partsPieces_cons_ok.1 h
      obtain ⟨_, _, hopen, -, rfl⟩ := Compiler.partsPieces_cons_ok.1 hmore
      exact (Compiler.unterminated_ok.1 hopen).elim
  | case3 pos cs before rest hcut opened body rest' hbody =>
      rename_i ih
      obtain ⟨_, _, hplain, hmore, rfl⟩ := Compiler.partsPieces_cons_ok.1 h
      cases Compiler.plain_ok.1 hplain
      obtain ⟨_, more, hcode, hrest', rfl⟩ := Compiler.partsPieces_cons_ok.1 hmore
      obtain ⟨t, ht, -, rfl⟩ := Compiler.code_ok.1 hcode
      obtain ⟨hgives, hchars⟩ := ih hrest'
      obtain ⟨rfl, -, hbegins, hclear⟩ := cut?_eq_some.1 hcut
      obtain ⟨hrest, -⟩ := untilBrace_eq_some.1 hbody
      refine ⟨.cons (.plain (not_infix_of_clear hclear)) (.cons (.code ht) hgives), ?_⟩
      simp only [List.flatMap_cons, Part.chars, hchars]
      rw [← begins_eq_true hbegins, hrest]
      simp

/-! ## The brace that ends an expression -/

/-- The offset of the brace that ends an expression. -/
def closingBrace? (cs : List Char) : Option Nat :=
  (untilBrace .code cs).map fun (body, _) => size body

/-- Characters lead to one place only. -/
theorem Passes.unique {place place' place'' : Place} {cs : List Char} (h : Passes place cs place')
    (h' : Passes place cs place'') : place' = place'' := by
  induction h with
  | nil =>
      cases h'
      rfl
  | cons _ _ ih =>
      cases h' with
      | cons _ hrest => exact ih hrest

end Interpolation

/-! ## String literals -/

namespace Expr

open Text Interpolation

variable {pos : Nat} {c quote : Char} {cs : List Char}

/-- A string literal that does not end does not lead back to code. -/
theorem stringBody_none {place : Place} (h : stringBody quote cs = none)
    (hpasses : Passes (.string quote) cs place) : place ≠ .code := by
  fun_induction stringBody quote cs with
  | case1 =>
      cases hpasses
      exact Place.noConfusion
  | case2 cs => cases h
  | case3 hquote =>
      obtain _ | ⟨-, hrest⟩ := hpasses
      cases hrest
      simp [Place.after]
  | case4 d cs hquote ih =>
      obtain _ | ⟨-, hescape⟩ := hpasses
      obtain _ | ⟨-, hrest⟩ := hescape
      rw [Place.after, if_pos rfl, Place.after] at hrest
      exact ih (Option.map_eq_none_iff.1 h) hrest
  | case5 c cs hquote hescape ih =>
      obtain _ | ⟨-, hrest⟩ := hpasses
      rw [Place.after, if_neg hescape, if_neg hquote] at hrest
      exact ih (Option.map_eq_none_iff.1 h) hrest

/-- A token can only be an unterminated string literal where one begins. -/
theorem lexeme_unterminated {fault : Fault Cause} (h : lexeme pos c cs = .error fault)
    (hcause : fault.cause = .unterminatedString) :
    (c = '"' ∨ c = '\'') ∧ stringBody c cs = none := by
  unfold lexeme at h
  split at h
  · cases h
  · split at h
    · rename_i hquote
      split at h
      · cases h
      · rename_i hbody
        exact ⟨hquote, hbody⟩
    · split at h
      · unfold number at h
        dsimp only at h
        split at h
        · cases h
        · cases h
          cases hcause
      · split at h
        · cases h
        · cases h
          cases hcause

/-- Where characters lead from code to code no string literal is unterminated. -/
theorem tokensFrom_unterminated {fault : Fault Cause} (hpasses : Passes .code cs .code)
    (h : tokensFrom pos cs = .error fault) : fault.cause ≠ .unterminatedString := by
  induction pos, cs using tokensFrom.induct with
  | case1 pos => simp [tokensFrom] at h
  | case2 pos c cs hblank ih =>
      rw [tokensFrom_cons, if_pos hblank] at h
      have hc : Passes .code [c] .code := .code (p := isBlank) rfl rfl rfl (by simpa using hblank)
      obtain ⟨between, hfirst, hrest⟩ :=
        Passes.append_iff.1 (show Passes .code ([c] ++ cs) .code from hpasses)
      cases hc.unique hfirst
      exact ih hrest h
  | case3 pos c cs hblank fault' hlexeme =>
      rw [tokensFrom_cons, if_neg hblank, hlexeme] at h
      cases h
      intro hcause
      obtain ⟨hquote, hbody⟩ := lexeme_unterminated hlexeme hcause
      obtain _ | ⟨-, hrest⟩ := hpasses
      rw [Place.after, if_pos hquote] at hrest
      exact stringBody_none hbody hrest rfl
  | case4 pos c cs hblank token rest hlexeme ih =>
      rw [tokensFrom_cons, if_neg hblank, hlexeme] at h
      obtain ⟨taken, htaken, hfirst⟩ := lexeme_passes hlexeme
      rw [htaken] at hpasses
      obtain ⟨between, hfirst', hrest⟩ := Passes.append_iff.1 hpasses
      cases hfirst.unique hfirst'
      exact ih hrest (Except.map_eq_error.1 h)

end Expr

/-! ## Splitting -/

namespace Interpolation

open Text

theorem closingBrace?_eq_some {cs : List Char} {n : Nat} : closingBrace? cs = some n ↔
    ∃ body rest, cs = body ++ '\x7d' :: rest ∧ size body = n ∧ Passes .code body .code := by
  rw [closingBrace?, Option.map_eq_some_iff]
  constructor
  · rintro ⟨⟨body, rest⟩, hbody, rfl⟩
    obtain ⟨hcs, hpasses⟩ := untilBrace_eq_some.1 hbody
    exact ⟨body, rest, hcs, rfl, hpasses⟩
  · rintro ⟨body, rest, hcs, rfl, hpasses⟩
    exact ⟨(body, rest), untilBrace_eq_some.2 ⟨hcs, hpasses⟩, rfl⟩

/-- Text is split without loss, and the brace that ends an expression is found where the tokens of
the expression end.  The pieces of a text are its parts, of which none is left out, and text in
which no expression begins.  If a closing brace is found at some place then there is one, and no
string literal is open there.  And after what can be divided into tokens the next brace is the one
that is found, whatever comes after it. -/
theorem splits_in_step :
    (∀ (c : Compiler) (scope : Scope) (content : String) (span : Span) (pieces : List Fragment),
      c.nodePieces scope (.text content span) = .ok pieces →
      ∃ parts : List Part, List.Forall₂ (Part.Gives c scope) parts pieces ∧
        parts.flatMap Part.chars = content.toList) ∧
    (∀ (cs : List Char) (n : Nat), closingBrace? cs = some n →
      ∃ body rest, cs = body ++ '\x7d' :: rest ∧ size body = n ∧
        ∀ offset fault, Expr.tokens ⟨offset, body⟩ = .error fault →
          fault.cause ≠ .unterminatedString) ∧
    ∀ (e : Excerpt) (ts : List Expr.Token), Expr.tokens e = .ok ts → ∀ tail,
      closingBrace? (e.chars ++ '\x7d' :: tail) = some (size e.chars) := by
  refine ⟨?_, ?_, ?_⟩
  · intro c scope content span pieces h
    exact ⟨_, partsPieces_runs h⟩
  · intro cs n h
    obtain ⟨body, rest, hcs, hsize, hpasses⟩ := closingBrace?_eq_some.1 h
    refine ⟨body, rest, hcs, hsize, ?_⟩
    intro offset fault hfault
    exact Expr.tokensFrom_unterminated hpasses hfault
  · intro e ts h tail
    exact closingBrace?_eq_some.2 ⟨e.chars, tail, rfl, rfl, Expr.tokensFrom_passes h⟩

/-! ## A greeting with braces in it -/

namespace Braced

/-- A scope with one name. -/
def scope : Scope := ⟨(ObjectTy.empty "Page").withField "name" .string, []⟩

/-- A brace in a string literal, after a quote that a backslash takes. -/
def literal : Excerpt := ⟨2, "'it\\'s \x7d'".toList⟩

/-- Two expressions, with text around them. -/
def greeting : String := "#\x7b'it\\'s \x7d'\x7d, #\x7bname\x7d\x7d"

/-- The braces in the literal and after the name end no expression. -/
theorem splits_in_step_greeting :
    (∃ pieces, Compiler.nodePieces ⟨{}, .ofString "greeting" greeting⟩ scope
        (.text greeting (.ofChars 0 greeting.toList)) = .ok pieces ∧ pieces.length = 5 ∧
      ∃ parts : List Part,
        List.Forall₂ (Part.Gives ⟨{}, .ofString "greeting" greeting⟩ scope) parts pieces ∧
          parts.flatMap Part.chars = greeting.toList) ∧
    (closingBrace? (greeting.toList.drop 2) = some 9 ∧
      ∃ body rest, greeting.toList.drop 2 = body ++ '\x7d' :: rest ∧ size body = 9 ∧
        ∀ offset fault, Expr.tokens ⟨offset, body⟩ = .error fault →
          fault.cause ≠ .unterminatedString) ∧
    ∃ ts, Expr.tokens literal = .ok ts ∧
      closingBrace? (literal.chars ++ '\x7d' :: ['\x7d']) = some (size literal.chars) := by
  obtain ⟨hsplit, hbrace, htokens⟩ := splits_in_step
  refine ⟨?_, ?_, ?_⟩
  · have hlength : (Compiler.nodePieces ⟨{}, .ofString "greeting" greeting⟩ scope
        (.text greeting (.ofChars 0 greeting.toList))).toOption.map List.length = some 5 := by
      decide +kernel
    obtain ⟨pieces, hpieces, hfive⟩ := Option.map_eq_some_iff.1 hlength
    have hpieces := Except.toOption_eq_some.1 hpieces
    exact ⟨pieces, hpieces, hfive, hsplit _ _ _ _ _ hpieces⟩
  · have hnine : closingBrace? (greeting.toList.drop 2) = some 9 := by decide +kernel
    exact ⟨hnine, hbrace _ _ hnine⟩
  · have hread : (Expr.tokens literal).toBool = true := by decide +kernel
    cases hts : Expr.tokens literal with
    | error fault =>
        rw [hts] at hread
        cases hread
    | ok ts => exact ⟨ts, rfl, htokens _ _ hts _⟩

end Braced

end Interpolation

end TypedTemplate
