/-
# `TypedTemplate.Proofs.Expr.Lexeme` — what a token of an expression looks like

`Lexeme cs kind rest` says which characters make up a token, of which kind it is, and what must
not come after them for the token to end there: no further digit after a number, no letter
after a name.  It is what `lexeme` finds (`lexeme_eq_ok`), said without the order in which
`lexeme` looks for it.

`Gives pos cs ts rest` strings tokens together: `cs` is divided into `ts` if `rest` comes after
it.  What comes after matters by its first two characters at most, so a text can be broken off
behind any of its tokens and go on with a space (`exists_gives`).
-/
import Mathlib.Data.Bool.AllAny
import TypedTemplate.Proofs.Fragment.Braces
import TypedTemplate.Proofs.Markup.Reads

namespace TypedTemplate.Expr

open Text Markup

/-! ## Strings -/

/-- The characters between the quotes of a string literal: no quote among them that no backslash
precedes. -/
inductive Quoted (quote : Char) : List Char → Prop where
  | nil : Quoted quote []
  | plain {c : Char} {cs : List Char} : c ≠ quote → c ≠ '\\' → Quoted quote cs →
      Quoted quote (c :: cs)
  | escape {c : Char} {cs : List Char} : Quoted quote cs → Quoted quote ('\\' :: c :: cs)

theorem quoted_of_stringBody {quote : Char} {cs body rest : List Char}
    (h : stringBody quote cs = some (body, rest)) : Quoted quote body := by
  fun_induction stringBody quote cs generalizing body with
  | case1 => cases h
  | case2 cs =>
      cases h
      exact .nil
  | case3 => cases h
  | case4 d cs _ ih =>
      obtain ⟨⟨b, r⟩, hbody, heq⟩ := Option.map_eq_some_iff.1 h
      cases heq
      exact .escape (ih hbody)
  | case5 c cs hends hescape ih =>
      obtain ⟨⟨b, r⟩, hbody, heq⟩ := Option.map_eq_some_iff.1 h
      cases heq
      exact .plain hends hescape (ih hbody)

theorem Quoted.stringBody_eq {quote : Char} (hquote : quote ≠ '\\') {body : List Char}
    (h : Quoted quote body) (rest : List Char) :
    stringBody quote (body ++ quote :: rest) = some (body, rest) := by
  induction h with
  | nil =>
      rw [List.nil_append, stringBody.eq_def]
      exact if_pos rfl
  | plain hends hescape _ ih =>
      rw [List.cons_append, stringBody.eq_def]
      dsimp only
      rw [if_neg hends, if_neg hescape, ih]
      rfl
  | escape _ ih =>
      rw [List.cons_append, List.cons_append, stringBody, if_neg hquote.symm, if_pos rfl, ih]
      rfl

/-! ## Numbers -/

namespace Numeral

/-- There are digits before the point, and behind it if there is one, and the number is at an end
where `rest` comes after it. -/
structure Ends (n : Numeral) (rest : List Char) : Prop where
  whole_ne : n.whole ≠ []
  whole : ∀ d ∈ n.whole, d.isDigit = true
  fraction_ne : n.fraction ≠ some []
  fraction : ∀ ds, n.fraction = some ds → ∀ d ∈ ds, d.isDigit = true
  digit : startsWhere Char.isDigit rest = false
  point : n.fraction = none → ∀ d more, rest = '.' :: d :: more → d.isDigit = false

theorem takeWhile_ne_nil {p : Char → Bool} {cs : List Char} (h : startsWhere p cs = true) :
    cs.takeWhile p ≠ [] := by
  cases cs with
  | nil => cases h
  | cons c cs =>
      rw [List.takeWhile_cons_of_pos (p := p) h]
      exact List.cons_ne_nil _ _

/-- What is read where a digit stands is a number up to its end. -/
theorem ends_read (negative : Bool) {cs : List Char} (h : startsWhere Char.isDigit cs = true) :
    (read negative cs).1.Ends (read negative cs).2 := by
  have hwhole := takeWhile_ne_nil h
  have hdigits : ∀ d ∈ cs.takeWhile Char.isDigit, d.isDigit = true :=
    fun d hd => List.mem_takeWhile_imp hd
  have hdrop := startsWhere_dropWhile Char.isDigit cs
  unfold read
  split
  · rename_i d more hrest
    split
    · rename_i hd
      refine ⟨hwhole, hdigits, ?_, ?_, startsWhere_dropWhile _ _, nofun⟩
      · intro hnil
        have hne : (d :: more).takeWhile Char.isDigit ≠ [] := takeWhile_ne_nil hd
        exact hne (Option.some.inj hnil)
      · rintro ds ⟨⟩ c hc
        exact List.mem_takeWhile_imp hc
    · rename_i hd
      refine ⟨hwhole, hdigits, nofun, nofun, rfl, ?_⟩
      rintro - _ _ ⟨⟩
      exact Bool.eq_false_iff.2 hd
  · rename_i hnot
    exact ⟨hwhole, hdigits, nofun, nofun, hdrop, fun _ _ _ heq => (hnot _ _ heq).elim⟩

/-- The digits of a number, with the point among them. -/
def unsigned (n : Numeral) : List Char :=
  n.whole ++ match n.fraction with
    | some fraction => '.' :: fraction
    | none => []

theorem chars_eq (n : Numeral) : n.chars = (if n.negative then ['-'] else []) ++ n.unsigned :=
  List.append_assoc _ n.whole _

theorem Ends.startsWhere {n : Numeral} {rest : List Char} (h : n.Ends rest) (cs : List Char) :
    startsWhere Char.isDigit (n.unsigned ++ cs) = true := by
  obtain ⟨d, ds, hwhole⟩ := List.exists_cons_of_ne_nil h.whole_ne
  rw [unsigned, hwhole]
  exact h.whole d (by rw [hwhole]; exact List.mem_cons_self)

/-- A number that ends is read up to its end. -/
theorem Ends.read {n : Numeral} {rest : List Char} (h : n.Ends rest) :
    Numeral.read n.negative (n.unsigned ++ rest) = (n, rest) := by
  obtain ⟨negative, whole, fraction⟩ := n
  have htake (cs : List Char) : (whole ++ cs).takeWhile Char.isDigit =
      whole ++ cs.takeWhile Char.isDigit := List.takeWhile_append_of_pos h.whole
  have hdrop (cs : List Char) : (whole ++ cs).dropWhile Char.isDigit =
      cs.dropWhile Char.isDigit := List.dropWhile_append_of_pos h.whole
  cases fraction with
  | some ds =>
      have hds := h.fraction ds rfl
      obtain ⟨d, more, rfl⟩ : ∃ d more, ds = d :: more :=
        List.exists_cons_of_ne_nil fun hnil => h.fraction_ne (congrArg some hnil)
      have hd : d.isDigit = true := hds d List.mem_cons_self
      rw [unsigned, List.append_assoc, Numeral.read, htake, hdrop, List.cons_append,
        List.takeWhile_cons_of_neg (by simp), List.dropWhile_cons_of_neg (by simp),
        List.append_nil]
      split
      · rename_i heq
        obtain ⟨-, hmore⟩ := List.cons.inj heq
        rw [← hmore, List.takeWhile_append_of_pos hds, List.dropWhile_append_of_pos hds,
          takeWhile_of_startsWhere h.digit, dropWhile_of_startsWhere h.digit, List.append_nil]
        obtain ⟨rfl, -⟩ := List.cons.inj hmore
        rw [if_pos hd]
      · rename_i hnot
        exact (hnot d (more ++ rest) rfl).elim
  | none =>
      rw [unsigned, List.append_nil, Numeral.read, htake, hdrop, takeWhile_of_startsWhere h.digit,
        dropWhile_of_startsWhere h.digit, List.append_nil]
      split
      · rename_i d more
        rw [if_neg (Bool.eq_false_iff.1 (h.point rfl d more rfl))]
      · rfl

end Numeral

/-! ## Which characters begin which token -/

theorem isAlphabetic_of_lt {c : Char} (h : c.toNat < 0x41) : isAlphabetic c = false := by
  unfold isAlphabetic inRanges alphabeticRanges
  rw [Ranges.holds, if_pos h]

/-- The characters that are tokens by themselves. -/
def marks : List Char := ['.', ',', ':', '!', '(', ')', '[', ']']

theorem mem_marks {c : Char} {kind : TokenKind} (h : punctuation? c = some kind) : c ∈ marks := by
  by_contra hmem
  simp only [marks, List.mem_cons, List.not_mem_nil, or_false, not_or] at hmem
  simp [punctuation?, hmem] at h

-- The marks are gone through by `List.all`: of two ways to decide a claim about the characters in
-- a list, the other one goes through all characters.

theorem not_isNameStart_of_mark : ∀ c ∈ marks, isNameStart c = false :=
  List.all_iff_forall_prop.1 (by decide +kernel)

theorem not_isDigit_of_mark : ∀ c ∈ marks, c.isDigit = false :=
  List.all_iff_forall_prop.1 (by decide)

theorem utf8Size_of_mark : ∀ c ∈ marks, c.utf8Size = 1 :=
  List.all_iff_forall_prop.1 (by decide)

theorem not_isBlank_of_mark : ∀ c ∈ marks, isBlank c = false :=
  List.all_iff_forall_prop.1 (by decide +kernel)

theorem punctuation_eq_none {c : Char} (h : c ∉ marks) : punctuation? c = none :=
  Option.eq_none_iff_forall_ne_some.2 fun _ hkind => h (mem_marks hkind)

theorem isNameStart_of_isDigit {c : Char} (h : c.isDigit = true) : isNameStart c = false := by
  have hlt : c.toNat < 0x41 := Nat.lt_of_le_of_lt (Char.isDigit_iff_toNat.1 h).2 (by decide)
  rw [isNameStart, isAlphabetic_of_lt hlt, Bool.false_or, beq_eq_false_iff_ne]
  rintro rfl
  cases h

/-- The code points of a table. -/
def codes (ranges : Ranges) : List Nat :=
  ranges.flatMap fun range => List.range' range.1 (range.2 + 1 - range.1)

theorem mem_codes {ranges : Ranges} {n : Nat} (h : ranges.holds n = true) : n ∈ codes ranges := by
  induction ranges with
  | nil => cases h
  | cons range ranges ih =>
      obtain ⟨low, high⟩ := range
      rw [Ranges.holds] at h
      split at h
      · cases h
      · rename_i hlow
        rw [codes, List.flatMap_cons, List.mem_append]
        rw [Bool.or_eq_true, decide_eq_true_eq] at h
        refine h.imp (fun hhigh => ?_) ih
        rw [List.mem_range'_1]
        omega

theorem not_isBlank_of_isNameChar {c : Char} (h : isNameChar c = true) : isBlank c = false := by
  have hcodes : ∀ n ∈ codes blankRanges, alphabeticRanges.holds n = false ∧
      numericRanges.holds n = false ∧ n ≠ '_'.toNat := by
    decide +kernel
  by_contra hblank
  obtain ⟨hletter, hdigit, hline⟩ := hcodes c.toNat (mem_codes (Bool.not_eq_false _ ▸ hblank))
  rw [isNameChar, Bool.or_eq_true, Bool.or_eq_true, beq_iff_eq] at h
  rcases h with (h | h) | rfl
  · exact absurd (hletter.symm.trans h) Bool.false_ne_true
  · exact absurd (hdigit.symm.trans h) Bool.false_ne_true
  · exact hline rfl

theorem not_isBlank_of_isNameStart {c : Char} (h : isNameStart c = true) : isBlank c = false :=
  not_isBlank_of_isNameChar (isNameChar_of_isNameStart h)

theorem not_isBlank_of_isDigit {c : Char} (h : c.isDigit = true) : isBlank c = false := by
  have hcodes : ∀ n ∈ codes blankRanges, n < '0'.toNat ∨ '9'.toNat < n := by decide +kernel
  by_contra hblank
  obtain ⟨hlow, hhigh⟩ := Char.isDigit_iff_toNat.1 h
  rcases hcodes c.toNat (mem_codes (Bool.not_eq_false _ ▸ hblank)) with hlt | hlt
  · exact Nat.not_lt.2 hlow hlt
  · exact Nat.not_lt.2 hhigh hlt

/-! ## One token -/

/-- The characters of a token, its kind, and what may come after it. -/
inductive Lexeme : List Char → TokenKind → List Char → Prop where
  | mark {c : Char} {kind : TokenKind} {rest : List Char} : punctuation? c = some kind →
      Lexeme [c] kind rest
  | string {quote : Char} {body rest : List Char} : quote = '"' ∨ quote = '\'' →
      Quoted quote body →
      Lexeme (quote :: (body ++ [quote])) (.literal (.string (String.ofList (unquote body)))) rest
  | number {n : Numeral} {literal : Literal} {rest : List Char} : n.Ends rest →
      n.literal? = some literal → Lexeme n.chars (.literal literal) rest
  | name {c : Char} {cs rest : List Char} : isNameStart c = true →
      (∀ d ∈ cs, isNameChar d = true) → startsWhere isNameChar rest = false →
      Lexeme (c :: cs) (word (String.ofList (c :: cs))) rest

variable {pos : Nat} {c : Char} {cs rest : List Char} {t : Token}

theorem Lexeme.ne_nil {kind : TokenKind} (h : Lexeme cs kind rest) : cs ≠ [] := by
  cases h with
  | number hends _ =>
      rw [Numeral.chars_eq, Numeral.unsigned]
      simp [hends.whole_ne]
  | _ => exact List.cons_ne_nil _ _

/-- No token begins with blank space. -/
theorem Lexeme.not_isBlank {kind : TokenKind} {taken : List Char} (h : Lexeme taken kind rest)
    (htaken : taken = c :: cs) : isBlank c = false := by
  cases h with
  | mark hkind =>
      obtain ⟨rfl, -⟩ := List.cons.inj htaken
      exact not_isBlank_of_mark _ (mem_marks hkind)
  | string hquote _ =>
      obtain ⟨rfl, -⟩ := List.cons.inj htaken
      rcases hquote with rfl | rfl <;> rfl
  | @number n _ _ hends _ =>
      have hdigit := hends.startsWhere []
      rw [List.append_nil] at hdigit
      rw [Numeral.chars_eq] at htaken
      cases hsign : n.negative with
      | true =>
          rw [hsign] at htaken
          obtain ⟨rfl, -⟩ := List.cons.inj htaken
          rfl
      | false =>
          rw [hsign] at htaken
          rw [show n.unsigned = c :: cs from htaken] at hdigit
          exact not_isBlank_of_isDigit hdigit
  | name hstart _ _ =>
      obtain ⟨rfl, -⟩ := List.cons.inj htaken
      exact not_isBlank_of_isNameStart hstart

/-- What is read as a number is one. -/
theorem number_lexeme (hstarts : startsNumber c cs = true) (h : number pos c cs = .ok (t, rest)) :
    ∃ taken, c :: cs = taken ++ rest ∧ Lexeme taken t.kind rest ∧ t.span = .ofChars pos taken := by
  have hread (negative : Bool) (ds : List Char) (literal : Literal)
      (hsign : (if negative then ['-'] else []) ++ ds = c :: cs)
      (hdigit : startsWhere Char.isDigit ds = true)
      (hliteral : (Numeral.read negative ds).1.literal? = some literal) :
      ∃ taken, c :: cs = taken ++ (Numeral.read negative ds).2 ∧
        Lexeme taken (.literal literal) (Numeral.read negative ds).2 ∧
        Span.ofChars pos (Numeral.read negative ds).1.chars = .ofChars pos taken := by
    refine ⟨(Numeral.read negative ds).1.chars, ?_, ?_, rfl⟩
    · rw [← hsign, ← Numeral.chars_read]
    · exact .number (Numeral.ends_read negative hdigit) hliteral
  unfold number at h
  dsimp only at h
  split at h
  · rename_i literal hliteral
    cases h
    by_cases hminus : c = '-'
    · subst hminus
      exact hread true cs literal rfl hstarts hliteral
    · rw [if_neg hminus] at hliteral ⊢
      have hdigit : c.isDigit = true := by simpa [startsNumber, hminus] using hstarts
      exact hread false (c :: cs) literal rfl hdigit hliteral
  · cases h

/-- A number is read as what it is. -/
theorem number_of_ends (pos : Nat) {n : Numeral} {literal : Literal} (h : n.Ends rest)
    (hliteral : n.literal? = some literal) (hchars : n.chars ++ rest = c :: cs) :
    startsNumber c cs = true ∧ punctuation? c = none ∧
      ¬ (c = '"' ∨ c = '\'') ∧
      number pos c cs = .ok (⟨.literal literal, .ofChars pos n.chars⟩, rest) := by
  have hstarts := h.startsWhere rest
  have hread := h.read
  rw [Numeral.chars_eq, List.append_assoc] at hchars
  cases hsign : n.negative with
  | true =>
      rw [hsign] at hchars hread
      obtain ⟨rfl, rfl⟩ : '-' = c ∧ n.unsigned ++ rest = cs := List.cons.inj hchars
      refine ⟨hstarts, rfl, by decide, ?_⟩
      unfold number
      dsimp only
      rw [if_pos rfl, hread]
      dsimp only
      rw [hliteral]
  | false =>
      rw [hsign] at hchars hread
      have hcons : n.unsigned ++ rest = c :: cs := hchars
      rw [hcons] at hstarts hread
      have hdigit : c.isDigit = true := hstarts
      have hne {d : Char} (hd : d.isDigit = false) : c ≠ d := by
        rintro rfl
        rw [hd] at hdigit
        cases hdigit
      refine ⟨by rw [startsNumber, hdigit, Bool.true_or], ?_, ?_, ?_⟩
      · exact punctuation_eq_none fun hmem => hne (not_isDigit_of_mark c hmem) rfl
      · rintro (hquote | hquote)
        · exact hne rfl hquote
        · exact hne rfl hquote
      · unfold number
        dsimp only
        rw [if_neg (hne (d := '-') rfl), hread]
        dsimp only
        rw [hliteral]

theorem ofChars_mark {kind : TokenKind} (h : punctuation? c = some kind) (pos : Nat) :
    Span.ofChars pos [c] = ⟨pos, 1⟩ := by
  rw [Span.ofChars, size_cons, size_nil, utf8Size_of_mark c (mem_marks h)]

theorem ofChars_quoted {quote : Char} (h : quote = '"' ∨ quote = '\'') (pos : Nat)
    (body : List Char) :
    Span.ofChars pos (quote :: (body ++ [quote])) = ⟨pos, size body + 2⟩ := by
  have hsize : quote.utf8Size = 1 := by rcases h with rfl | rfl <;> rfl
  rw [Span.ofChars, size_cons, size_append, size_cons, size_nil, hsize, Nat.add_zero,
    Nat.add_comm 1, Nat.add_assoc]

/-- What `lexeme` finds is a token with its characters. -/
theorem lexeme_sound (h : lexeme pos c cs = .ok (t, rest)) :
    ∃ taken, c :: cs = taken ++ rest ∧ Lexeme taken t.kind rest ∧ t.span = .ofChars pos taken := by
  unfold lexeme at h
  split at h
  · rename_i kind hkind
    cases h
    exact ⟨[c], rfl, .mark hkind, (ofChars_mark hkind pos).symm⟩
  · split at h
    · rename_i hquote
      split at h
      · rename_i body left hbody
        cases h
        obtain ⟨hcs, -⟩ := stringBody_passes hbody
        refine ⟨c :: (body ++ [c]), by simp [hcs], ?_, (ofChars_quoted hquote pos body).symm⟩
        exact .string hquote (quoted_of_stringBody hbody)
      · cases h
    · split at h
      · rename_i hstarts
        exact number_lexeme hstarts h
      · split at h
        · rename_i hstart
          cases h
          refine ⟨c :: cs.takeWhile isNameChar, ?_, .name hstart ?_ ?_, rfl⟩
          · rw [List.cons_append, List.takeWhile_append_dropWhile]
          · intro d hd
            exact List.mem_takeWhile_imp hd
          · exact startsWhere_dropWhile _ _
        · cases h

/-- What begins a name begins nothing else. -/
theorem only_name (hstart : isNameStart c = true) (cs : List Char) :
    punctuation? c = none ∧ ¬ (c = '"' ∨ c = '\'') ∧ startsNumber c cs = false := by
  have hne {d : Char} (hd : isNameStart d = false) : c ≠ d := by
    rintro rfl
    rw [hd] at hstart
    cases hstart
  refine ⟨?_, ?_, ?_⟩
  · exact punctuation_eq_none fun hmem => hne (not_isNameStart_of_mark c hmem) rfl
  · rintro (hquote | hquote)
    · exact hne (by decide +kernel) hquote
    · exact hne (by decide +kernel) hquote
  · have hminus : (c == '-') = false := beq_eq_false_iff_ne.2 (hne (by decide +kernel))
    have hdigit : c.isDigit = false := by
      by_contra hdigit
      exact hne (isNameStart_of_isDigit (Bool.not_eq_false _ ▸ hdigit)) rfl
    rw [startsNumber, hdigit, hminus]
    rfl

/-- Every token with its characters is found. -/
theorem Lexeme.found {taken : List Char} {kind : TokenKind} (h : Lexeme taken kind rest)
    (hchars : c :: cs = taken ++ rest) :
    Expr.lexeme pos c cs = .ok (⟨kind, .ofChars pos taken⟩, rest) := by
  cases h with
  | mark hkind =>
      obtain ⟨rfl, rfl⟩ := List.cons.inj hchars
      rw [Expr.lexeme, hkind, ofChars_mark hkind]
  | @string quote body _ hquote hbody =>
      rw [List.cons_append] at hchars
      obtain ⟨rfl, rfl⟩ := List.cons.inj hchars
      have hescape : c ≠ '\\' := by rcases hquote with rfl | rfl <;> decide
      have hmark : punctuation? c = none := by rcases hquote with rfl | rfl <;> rfl
      rw [Expr.lexeme, hmark]
      dsimp only
      rw [if_pos hquote, List.append_assoc, List.singleton_append,
        hbody.stringBody_eq hescape rest, ofChars_quoted hquote]
  | number hends hliteral =>
      obtain ⟨hstarts, hmark, hquote, hnumber⟩ := number_of_ends pos hends hliteral hchars.symm
      rw [Expr.lexeme, hmark]
      dsimp only
      rw [if_neg hquote, if_pos hstarts, hnumber]
  | @name d ds _ hstart hds hrest =>
      rw [List.cons_append] at hchars
      obtain ⟨rfl, rfl⟩ := List.cons.inj hchars
      obtain ⟨hmark, hquote, hnumber⟩ := only_name hstart (ds ++ rest)
      rw [Expr.lexeme, hmark]
      dsimp only
      rw [if_neg hquote, hnumber, if_neg Bool.false_ne_true, if_pos hstart,
        List.takeWhile_append_of_pos hds, List.dropWhile_append_of_pos hds,
        takeWhile_of_startsWhere hrest, dropWhile_of_startsWhere hrest, List.append_nil]

/-- `lexeme` finds the tokens with their characters, and nothing else. -/
theorem lexeme_eq_ok : lexeme pos c cs = .ok (t, rest) ↔
    ∃ taken, c :: cs = taken ++ rest ∧ Lexeme taken t.kind rest ∧ t.span = .ofChars pos taken := by
  constructor
  · exact lexeme_sound
  · rintro ⟨taken, hchars, hlexeme, hspan⟩
    rw [hlexeme.found hchars, ← hspan]

/-- The end is not among the tokens. -/
theorem Lexeme.kind_ne_stop {kind : TokenKind} (h : Lexeme cs kind rest) : kind ≠ .stop := by
  rintro rfl
  generalize hkind : TokenKind.stop = kind at h
  cases h with
  | @mark c _ _ hmark =>
      have hmarks : ∀ c ∈ marks, (punctuation? c).all fun kind => !kind matches .stop :=
        List.all_iff_forall_prop.1 (by decide)
      have hall := hmarks c (mem_marks hmark)
      rw [hmark, ← hkind] at hall
      cases hall
  | string | number => cases hkind
  | name _ _ _ =>
      unfold word at hkind
      split at hkind
      · cases hkind
      · split at hkind <;> cases hkind

theorem kind_ne_stop_of_mem {ts : List Token} (h : tokensFrom pos cs = .ok ts) :
    ∀ t ∈ ts, t.kind ≠ .stop := by
  induction pos, cs using tokensFrom.induct generalizing ts with
  | case1 pos =>
      rw [tokensFrom] at h
      cases h
      exact List.forall_mem_nil _
  | case2 pos c cs hblank ih =>
      rw [tokensFrom_cons, if_pos hblank] at h
      exact ih h
  | case3 pos c cs hblank fault hlexeme =>
      rw [tokensFrom_cons, if_neg hblank, hlexeme] at h
      cases h
  | case4 pos c cs hblank token rest hlexeme ih =>
      rw [tokensFrom_cons, if_neg hblank, hlexeme] at h
      obtain ⟨us, hus, rfl⟩ := Except.map_eq_ok.1 (show Except.map _ _ = _ from h)
      obtain ⟨taken, -, hkind, -⟩ := lexeme_eq_ok.1 hlexeme
      exact List.forall_mem_cons.2 ⟨hkind.kind_ne_stop, ih hus⟩

/-! ## One token after another -/

/-- `cs` is divided into `ts` if `rest` comes after it, and it goes on with `rest`. -/
def Gives (pos : Nat) (cs : List Char) (ts : List Token) (rest : List Char) : Prop :=
  tokensFrom pos (cs ++ rest) = (tokensFrom (pos + size cs) rest).map (ts ++ ·)

namespace Gives

theorem nil : Gives pos [] [] rest := by
  show tokensFrom pos rest = (tokensFrom pos rest).map id
  cases tokensFrom pos rest <;> rfl

theorem append {as bs : List Char} {ts us : List Token} (h : Gives pos as ts (bs ++ rest))
    (h' : Gives (pos + size as) bs us rest) : Gives pos (as ++ bs) (ts ++ us) rest := by
  unfold Gives at h h' ⊢
  rw [List.append_assoc, h, h', size_append, Nat.add_assoc]
  cases tokensFrom (pos + (size as + size bs)) rest with
  | ok vs => exact congrArg Except.ok (List.append_assoc ts us vs).symm
  | error _ => rfl

/-- Blank space counts for nothing. -/
theorem blank {ts : List Token} (hblank : isBlank c = true)
    (h : Gives (pos + c.utf8Size) cs ts rest) : Gives pos (c :: cs) ts rest := by
  unfold Gives at h ⊢
  rw [List.cons_append, tokensFrom_cons, if_pos hblank, h, size_cons, Nat.add_assoc]

theorem lexeme {kind : TokenKind} (h : Lexeme cs kind rest) :
    Gives pos cs [⟨kind, .ofChars pos cs⟩] rest := by
  obtain ⟨c, cs, rfl⟩ := List.exists_cons_of_ne_nil h.ne_nil
  have hfound : Expr.lexeme pos c (cs ++ rest) = .ok (⟨kind, .ofChars pos (c :: cs)⟩, rest) :=
    lexeme_eq_ok.2 ⟨c :: cs, rfl, h, rfl⟩
  unfold Gives
  rw [List.cons_append, tokensFrom_cons, if_neg (Bool.eq_false_iff.1 (h.not_isBlank rfl)), hfound]
  rfl

/-- A character that is a token by itself. -/
theorem mark {kind : TokenKind} {ts : List Token} (hmark : punctuation? c = some kind)
    (h : Gives (pos + 1) cs ts rest) : Gives pos (c :: cs) (⟨kind, ⟨pos, 1⟩⟩ :: ts) rest := by
  have hone : Gives pos [c] [⟨kind, .ofChars pos [c]⟩] (cs ++ rest) :=
    .lexeme (.mark hmark)
  have hsize : size [c] = 1 := by rw [size_cons, size_nil, utf8Size_of_mark c (mem_marks hmark)]
  rw [ofChars_mark hmark] at hone
  exact hone.append (by rw [hsize]; exact h)

/-- All of a text. -/
theorem tokensFrom_eq {ts : List Token} (h : Gives pos cs ts []) : tokensFrom pos cs = .ok ts := by
  unfold Gives at h
  rw [List.append_nil] at h
  rw [h, tokensFrom]
  exact congrArg Except.ok (List.append_nil ts)

end Gives

/-! ## Texts that are broken off -/

/-- Nothing comes next, or a space. -/
def Spaced (cs : List Char) : Prop := cs = [] ∨ ∃ more, cs = ' ' :: more

theorem Spaced.head_blank (h : Spaced cs) : ∀ c ∈ cs.head?, isBlank c = true := by
  rcases h with rfl | ⟨more, rfl⟩
  · exact nofun
  · rintro _ ⟨⟩
    rfl

/-- What is not there is not there, either, where the rest breaks off and blank space comes next. -/
theorem startsWhere_cut {p : Char → Bool} (hp : ∀ c, p c = true → isBlank c = false)
    {kept more : List Char} (hkept : kept <+: rest) (hmore : ∀ c ∈ more.head?, isBlank c = true)
    (h : startsWhere p rest = false) : startsWhere p (kept ++ more) = false := by
  cases kept with
  | nil =>
      cases more with
      | nil => rfl
      | cons c more =>
          refine Bool.eq_false_iff.2 fun hc => ?_
          exact absurd ((hp c hc).symm.trans (hmore c rfl)) Bool.false_ne_true
  | cons d kept =>
      obtain ⟨lost, rfl⟩ := hkept
      exact h

/-- A token that ends where the rest comes after it also ends where the rest breaks off and blank
space comes next. -/
theorem Lexeme.before_blank {kind : TokenKind} {kept more : List Char} (h : Lexeme cs kind rest)
    (hkept : kept <+: rest) (hmore : ∀ c ∈ more.head?, isBlank c = true) :
    Lexeme cs kind (kept ++ more) := by
  cases h with
  | mark hkind => exact .mark hkind
  | string hquote hbody => exact .string hquote hbody
  | number hends hliteral =>
      refine .number { hends with digit := ?_, point := ?_ } hliteral
      · exact startsWhere_cut (fun _ => not_isBlank_of_isDigit) hkept hmore hends.digit
      · intro hnone d ds heq
        -- Blank space is neither a point nor a digit, so both characters are of the kept part.
        match kept, hkept, heq with
        | [], _, heq =>
            have hpoint : more = '.' :: d :: ds := heq
            cases hmore '.' (by rw [hpoint]; rfl)
        | [_], _, heq =>
            have hdigit : more = d :: ds := (List.cons.inj heq).2
            refine Bool.eq_false_iff.2 fun hd => ?_
            have hblank := hmore d (by rw [hdigit]; rfl)
            exact absurd ((not_isBlank_of_isDigit hd).symm.trans hblank) Bool.false_ne_true
        | _ :: _ :: kept, hkept, heq =>
            obtain ⟨lost, rfl⟩ := hkept
            cases heq
            exact hends.point hnone d _ rfl
  | name hstart hcs hrest =>
      exact .name hstart hcs
        (startsWhere_cut (fun _ => not_isBlank_of_isNameChar) hkept hmore hrest)

/-- A token that ends where the rest comes after it also ends where the rest breaks off. -/
theorem Lexeme.cut {kind : TokenKind} {kept more : List Char} (h : Lexeme cs kind rest)
    (hkept : kept <+: rest) (hmore : Spaced more) : Lexeme cs kind (kept ++ more) :=
  h.before_blank hkept hmore.head_blank

/-- A text can be broken off behind any of its tokens. -/
theorem exists_gives {before after : List Token} (h : tokensFrom pos cs = .ok (before ++ after)) :
    ∃ kept, kept <+: cs ∧ ∀ more, Spaced more → Gives pos kept before more := by
  induction pos, cs using tokensFrom.induct generalizing before with
  | case1 pos =>
      rw [tokensFrom] at h
      obtain ⟨rfl, -⟩ := List.append_eq_nil_iff.1 (Except.ok.inj h).symm
      exact ⟨[], List.nil_prefix, fun _ _ => .nil⟩
  | case2 pos c cs hblank ih =>
      rw [tokensFrom_cons, if_pos hblank] at h
      obtain ⟨kept, hkept, hgives⟩ := ih h
      refine ⟨c :: kept, List.cons_prefix_cons.2 ⟨rfl, hkept⟩, fun more hmore => ?_⟩
      exact .blank hblank (hgives more hmore)
  | case3 pos c cs hblank fault hlexeme =>
      rw [tokensFrom_cons, if_neg hblank, hlexeme] at h
      cases h
  | case4 pos c cs hblank token rest hlexeme ih =>
      cases before with
      | nil => exact ⟨[], List.nil_prefix, fun _ _ => .nil⟩
      | cons t before =>
          rw [tokensFrom_cons, if_neg hblank, hlexeme] at h
          obtain ⟨ts, hts, hcons⟩ := Except.map_eq_ok.1 (show Except.map _ _ = _ from h)
          obtain ⟨rfl, rfl⟩ := List.cons.inj hcons
          obtain ⟨taken, htaken, hkind, hspan⟩ := lexeme_eq_ok.1 hlexeme
          obtain ⟨kept, hkept, hgives⟩ := ih hts
          obtain ⟨d, ds, rfl⟩ := List.exists_cons_of_ne_nil hkind.ne_nil
          obtain ⟨rfl, -⟩ := List.cons.inj htaken
          refine ⟨c :: ds ++ kept, ?_, fun more hmore => ?_⟩
          · rw [htaken]
            exact (List.prefix_append_right_inj _).2 hkept
          · have hone : Gives pos (c :: ds) [⟨token.kind, .ofChars pos (c :: ds)⟩] (kept ++ more) :=
              .lexeme (hkind.cut hkept hmore)
            rw [← hspan] at hone
            refine hone.append ?_
            have hgives := hgives more hmore
            rw [hspan] at hgives
            exact hgives

end TypedTemplate.Expr
