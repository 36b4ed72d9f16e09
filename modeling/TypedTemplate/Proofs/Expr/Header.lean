/-
# `TypedTemplate.Proofs.Expr.Header` — a loop header is a name, a colon and an expression

A loop header is divided into tokens as a whole.  Its tokens are those of a name, the colon and
those of the text behind the colon, wherever that text stands and whatever is in it
(`tokensFrom_header`), since a name ends at a colon as it does at blank space and nothing in an
expression looks back.  So the text behind the first colon is read as an expression would be that
stands there by itself, faults included (`LoopHeader.read_divides`).

The one thing that is not left to the expression is an empty text: there the whole header is at
fault, where an expression is at fault at its end.
-/
import TypedTemplate.Proofs.Expr.Layout
import TypedTemplate.Proofs.Expr.RoundTrip
import TypedTemplate.Proofs.Markup.Closing

namespace TypedTemplate

open Text

/-! ## Blank space around a word -/

/-- The characters without the blank space before and after them. -/
def Text.trim (cs : List Char) : List Char := (cs.dropWhile isBlank).rdropWhile isBlank

/-- A run of characters is what is left of it, with blank space around. -/
theorem Text.trim_split (cs : List Char) : ∃ before after, cs = before ++ (trim cs ++ after) ∧
    (∀ c ∈ before, isBlank c = true) ∧ ∀ c ∈ after, isBlank c = true := by
  refine ⟨cs.takeWhile isBlank, (cs.dropWhile isBlank).rtakeWhile isBlank, ?_, ?_, ?_⟩
  · rw [trim, List.rdropWhile_append_rtakeWhile, List.takeWhile_append_dropWhile]
  · intro c hc
    exact List.mem_takeWhile_imp hc
  · intro c hc
    exact List.mem_rtakeWhile_imp hc

theorem Text.trim_eq {before taken after : List Char} (hbefore : ∀ c ∈ before, isBlank c = true)
    (hne : taken ≠ []) (htaken : ∀ c ∈ taken, isBlank c = false)
    (hafter : ∀ c ∈ after, isBlank c = true) : trim (before ++ (taken ++ after)) = taken := by
  obtain ⟨c, cs, rfl⟩ := List.exists_cons_of_ne_nil hne
  have hc : ¬ isBlank c = true := Bool.eq_false_iff.1 (htaken c List.mem_cons_self)
  rw [trim, List.dropWhile_append_of_pos hbefore, List.cons_append,
    List.dropWhile_cons_of_neg hc, ← List.cons_append, List.rdropWhile_append_of_neg htaken,
    List.rdropWhile_eq_nil_iff.2 hafter, List.append_nil]

/-! ## The names that a loop may bind -/

theorem Text.isAlphabetic_of_isAlpha {c : Char} (h : c.isAlpha = true) : isAlphabetic c = true := by
  have hletters : ∀ n ∈ List.range' 65 26 ++ List.range' 97 26, alphabeticRanges.holds n = true := by
    decide +kernel
  refine hletters c.toNat (List.mem_append.2 ((toNat_of_isAlpha h).imp ?_ ?_))
  · rintro ⟨hlow, hhigh⟩
    exact List.mem_range'_1.2 ⟨hlow, by omega⟩
  · rintro ⟨hlow, hhigh⟩
    exact List.mem_range'_1.2 ⟨hlow, by omega⟩

/-- A word of ASCII letters and digits that begins with a letter and is not a literal. -/
structure LoopHeader.Bindable (w : String) : Prop where
  letter : startsWhere Char.isAlpha w.toList = true
  alphanumeric : ∀ c ∈ w.toList, c.isAlphanum = true
  ne_true : w ≠ "true"
  ne_false : w ≠ "false"

namespace Expr

theorem isNameChar_of_isAlphanum {c : Char} (h : c.isAlphanum = true) : isNameChar c = true := by
  rcases Bool.or_eq_true_iff.1 h with halpha | hdigit
  · rw [isNameChar, isAlphabetic_of_isAlpha halpha, Bool.true_or, Bool.true_or]
  · exact isNameChar_of_isDigit hdigit

theorem not_isBlank_of_isAlphanum {c : Char} (h : c.isAlphanum = true) : isBlank c = false := by
  rcases Bool.or_eq_true_iff.1 h with halpha | hdigit
  · exact isBlank_of_isAlpha halpha
  · exact not_isBlank_of_isDigit hdigit

/-- Of the ASCII letters and digits only a letter begins a name. -/
theorem isNameStart_iff_isAlpha {c : Char} (h : c.isAlphanum = true) :
    isNameStart c = true ↔ c.isAlpha = true := by
  constructor
  · intro hstart
    refine (Bool.or_eq_true_iff.1 h).resolve_right fun hdigit => ?_
    exact absurd ((isNameStart_of_isDigit hdigit).symm.trans hstart) nofun
  · intro halpha
    rw [isNameStart, isAlphabetic_of_isAlpha halpha, Bool.true_or]

/-- The names that may be bound are those of the names that are written in ASCII letters and
digits. -/
theorem bindable_iff {w : String} :
    LoopHeader.Bindable w ↔ isName w = true ∧ LoopHeader.isLoopName w = true := by
  have hstart : (∀ c ∈ w.toList, c.isAlphanum = true) →
      (startsWhere isNameStart w.toList = true ↔ startsWhere Char.isAlpha w.toList = true) := by
    intro hword
    cases hw : w.toList with
    | nil => exact Iff.rfl
    | cons c cs => exact isNameStart_iff_isAlpha (hword c (by rw [hw]; exact List.mem_cons_self))
  simp only [isName, LoopHeader.isLoopName, Bool.and_eq_true, List.all_eq_true, bne_iff_ne]
  constructor
  · rintro ⟨hletter, hword, htrue, hfalse⟩
    refine ⟨⟨⟨⟨(hstart hword).2 hletter, fun c hc => ?_⟩, htrue⟩, hfalse⟩, hword⟩
    exact isNameChar_of_isAlphanum (hword c (List.mem_of_mem_tail hc))
  · rintro ⟨⟨⟨⟨hletter, -⟩, htrue⟩, hfalse⟩, hword⟩
    exact ⟨(hstart hword).1 hletter, hword, htrue, hfalse⟩

/-! ## The tokens of a header -/

variable {pos : Nat} {v taken rest : List Char} {w : String}

theorem punctuation?_ne_name (c : Char) (w : String) : punctuation? c ≠ some (.name w) := by
  intro h
  rw [punctuation?] at h
  repeat' split at h
  all_goals cases h

theorem eq_of_punctuation?_colon {c : Char} (h : punctuation? c = some .colon) : c = ':' := by
  rw [punctuation?] at h
  repeat' split at h
  all_goals first
    | assumption
    | cases h

theorem Lexeme.eq_of_name (h : Lexeme taken (.name w) rest) :
    taken = w.toList ∧ isName w = true := by
  generalize hkind : TokenKind.name w = kind at h
  cases h with
  | @mark c _ _ hmark =>
      rw [← hkind] at hmark
      exact (punctuation?_ne_name c w hmark).elim
  | string | number => cases hkind
  | @name c cs _ hstart hcs _ =>
      unfold word at hkind
      split at hkind
      · cases hkind
      · split at hkind
        · cases hkind
        · rename_i htrue hfalse
          cases hkind
          rw [isName, String.toList_ofList]
          refine ⟨rfl, ?_⟩
          simp only [Bool.and_eq_true, List.all_eq_true, bne_iff_ne]
          exact ⟨⟨⟨hstart, hcs⟩, htrue⟩, hfalse⟩

theorem Lexeme.eq_of_colon (h : Lexeme taken .colon rest) : taken = [':'] := by
  generalize hkind : TokenKind.colon = kind at h
  cases h with
  | @mark c _ _ hmark =>
      rw [← hkind] at hmark
      rw [eq_of_punctuation?_colon hmark]
  | string | number => cases hkind
  | name _ _ _ =>
      unfold word at hkind
      split at hkind
      · cases hkind
      · split at hkind <;> cases hkind

theorem Gives.blanks {blanks : List Char} (h : ∀ c ∈ blanks, isBlank c = true) :
    Gives pos blanks [] rest := by
  have hnil : Gives (pos + size blanks) [] [] rest := .nil
  exact (tokensFrom_blanks h pos rest).trans hnil

/-- Blank space ends a name and a number. -/
theorem Follows.blank {c : Char} {cs : List Char} (h : isBlank c = true) : Follows (c :: cs) := by
  refine ⟨Bool.eq_false_iff.2 fun hname => ?_, ?_⟩
  · exact absurd ((not_isBlank_of_isNameChar hname).symm.trans h) Bool.false_ne_true
  · rintro d more ⟨⟩
    cases h

/-- Before a colon stands a name, whatever comes after the colon. -/
theorem gives_header_name (hw : LoopHeader.Bindable w) (hv : trim v = w.toList) :
    ∃ span, Gives pos v [⟨.name w, span⟩] (':' :: rest) := by
  obtain ⟨before, after, hsplit, hbefore, hafter⟩ := trim_split v
  obtain ⟨hname, -⟩ := bindable_iff.1 hw
  have hfollows : Follows (after ++ ':' :: rest) := by
    cases after with
    | nil => exact .mark rfl nofun
    | cons c after => exact .blank (hafter c List.mem_cons_self)
  have hword : Gives (pos + size before) (w.toList ++ after) [⟨.name w, _⟩] (':' :: rest) :=
    (Gives.lexeme (lexeme_name hname hfollows)).append (.blanks hafter)
  rw [hsplit, hv]
  exact ⟨_, (Gives.blanks hbefore).append hword⟩

/-- The tokens of a header are those of the name and the colon and those of the text behind it, as
they are where it stands by itself. -/
theorem tokensFrom_header (hw : LoopHeader.Bindable w) (hv : trim v = w.toList) (pos : Nat)
    (rest : List Char) : ∃ span colon, tokensFrom pos (v ++ ':' :: rest) =
      (tokensFrom (pos + size v + 1) rest).map (⟨.name w, span⟩ :: ⟨.colon, colon⟩ :: ·) := by
  obtain ⟨span, hname⟩ : ∃ span, Gives pos v [⟨.name w, span⟩] ([':'] ++ rest) :=
    gives_header_name hw hv
  have hcolon : Gives (pos + size v) [':'] [⟨.colon, ⟨pos + size v, 1⟩⟩] rest := .mark rfl .nil
  have hheader := hname.append hcolon
  unfold Gives at hheader
  rw [List.append_assoc, size_append, ← Nat.add_assoc] at hheader
  exact ⟨span, ⟨pos + size v, 1⟩, hheader⟩

/-- What stands before the first colon of a header that begins with a name and a colon. -/
theorem Laid.header {ts : List Token} {span colon : Span} {cs : List Char}
    (h : Laid pos cs (⟨.name w, span⟩ :: ⟨.colon, colon⟩ :: ts)) :
    isName w = true ∧ ∃ before after rest, cs = before ++ (w.toList ++ after) ++ ':' :: rest ∧
      (∀ c ∈ before, isBlank c = true) ∧ ∀ c ∈ after, isBlank c = true := by
  cases h with
  | @cons _ before taken _ _ _ hbefore hname _ hrest =>
      obtain ⟨rfl, hw⟩ := hname.eq_of_name
      cases hrest with
      | @cons _ after taken rest _ _ hafter hcolon _ _ =>
          obtain rfl := hcolon.eq_of_colon
          exact ⟨hw, before, after, rest, by simp, hbefore, hafter⟩

end Expr

/-! ## Headers -/

namespace LoopHeader

open TypedTemplate.Expr (tokens)

variable {e : Excerpt} {header : LoopHeader} {v rest : List Char} {w : String} {pos : Nat}

/-- A header begins with a name that may be bound, and a colon. -/
theorem tokens_of_read (h : read e = .ok header) : isLoopName header.name = true ∧
    ∃ span colon ts, tokens e = .ok (⟨.name header.name, span⟩ :: ⟨.colon, colon⟩ :: ts) := by
  obtain ⟨ts, hts, hheader⟩ := Except.bind_eq_ok.1 h
  unfold ofTokens at hheader
  split at hheader
  · rename_i word span colon t us
    split at hheader
    · rename_i hword
      obtain ⟨list, -, rfl⟩ := Except.map_eq_ok.1 hheader
      exact ⟨hword, span, colon, t :: us, hts⟩
    · cases hheader
  · cases hheader

/-- The name that is bound stands before the first colon. -/
theorem splits_of_read (h : read e = .ok header) : Bindable header.name ∧
    ∃ v rest, e.chars = v ++ ':' :: rest ∧ ':' ∉ v ∧ trim v = header.name.toList := by
  obtain ⟨hloop, span, colon, ts, hts⟩ := tokens_of_read h
  obtain ⟨hname, before, after, rest, hchars, hbefore, hafter⟩ := (Expr.tokens_eq_ok.1 hts).header
  have hbindable : Bindable header.name := Expr.bindable_iff.2 ⟨hname, hloop⟩
  have hword (c : Char) (hc : c ∈ header.name.toList) : isBlank c = false :=
    Expr.not_isBlank_of_isAlphanum (hbindable.alphanumeric c hc)
  refine ⟨hbindable, before ++ (header.name.toList ++ after), rest, hchars, ?_, ?_⟩
  · intro hmem
    rcases List.mem_append.1 hmem with hmem | hmem
    · cases hbefore ':' hmem
    · rcases List.mem_append.1 hmem with hmem | hmem
      · cases hbindable.alphanumeric ':' hmem
      · cases hafter ':' hmem
  · refine trim_eq hbefore (fun hnil => ?_) hword hafter
    have hletter := hbindable.letter
    rw [hnil] at hletter
    cases hletter

/-- Behind a colon that has a name before it, anything is read as by itself. -/
theorem read_of_tokens (hw : Bindable w) (hv : trim v = w.toList)
    (hrest : tokens ⟨pos + size v + 1, rest⟩ ≠ .ok []) :
    read ⟨pos, v ++ ':' :: rest⟩ =
      (Expr.read ⟨pos + size v + 1, rest⟩).map fun list => ⟨w, list⟩ := by
  obtain ⟨span, colon, htokens⟩ := Expr.tokensFrom_header hw hv pos rest
  have hloop : isLoopName w = true := (Expr.bindable_iff.1 hw).2
  have hstop : Expr.Token.stop ⟨pos, v ++ ':' :: rest⟩ =
      Expr.Token.stop ⟨pos + size v + 1, rest⟩ := by
    have hsize : pos + size (v ++ ':' :: rest) = pos + size v + 1 + size rest := by
      rw [size_append, size_cons, ← Nat.add_assoc, ← Nat.add_assoc]
      rfl
    rw [Expr.Token.stop, Expr.Token.stop, hsize]
  unfold read Expr.read tokens at *
  rw [htokens]
  cases hts : Expr.tokensFrom (pos + size v + 1) rest with
  | error fault => rfl
  | ok ts =>
      cases ts with
      | nil => exact absurd hts hrest
      | cons t ts =>
          show ofTokens ⟨pos, v ++ ':' :: rest⟩ (⟨.name w, span⟩ :: ⟨.colon, colon⟩ :: t :: ts) =
            (Expr.ofTokens ⟨pos + size v + 1, rest⟩ (t :: ts)).map fun list => ⟨w, list⟩
          rw [ofTokens, if_pos hloop, Expr.ofTokens, Expr.ofTokens, hstop]

/-- A header with nothing behind the colon is at fault as a whole. -/
theorem read_of_no_tokens (hw : Bindable w) (hv : trim v = w.toList)
    (hrest : tokens ⟨pos + size v + 1, rest⟩ = .ok []) : read ⟨pos, v ++ ':' :: rest⟩ =
      .error ⟨.malformedLoop (String.ofList (v ++ ':' :: rest)), .ofChars pos (v ++ ':' :: rest)⟩ := by
  obtain ⟨span, colon, htokens⟩ := Expr.tokensFrom_header hw hv pos rest
  unfold tokens at hrest
  unfold read tokens
  rw [htokens, hrest]
  rfl

/-- A header is a name before the first colon and an expression behind it: what is read as a header
divides in this way; and behind a name and a colon a text with anything in it is read as it would be
by itself, to the same expression or the same fault. -/
theorem read_divides :
    (∀ e header, read e = .ok header → ∃ v rest, e.chars = v ++ ':' :: rest ∧ ':' ∉ v ∧
      trim v = header.name.toList ∧ Bindable header.name ∧
        Expr.read ⟨e.offset + size v + 1, rest⟩ = .ok header.list) ∧
    ∀ pos v w rest, trim v = w.toList → Bindable w →
      (tokens ⟨pos + size v + 1, rest⟩ ≠ .ok [] → read ⟨pos, v ++ ':' :: rest⟩ =
        (Expr.read ⟨pos + size v + 1, rest⟩).map fun list => ⟨w, list⟩) ∧
      (tokens ⟨pos + size v + 1, rest⟩ = .ok [] → read ⟨pos, v ++ ':' :: rest⟩ = .error
        ⟨.malformedLoop (String.ofList (v ++ ':' :: rest)), .ofChars pos (v ++ ':' :: rest)⟩) := by
  constructor
  · intro e header h
    obtain ⟨hw, v, rest, hchars, hcolon, hv⟩ := splits_of_read h
    refine ⟨v, rest, hchars, hcolon, hv, hw, ?_⟩
    obtain ⟨pos, chars⟩ := e
    subst hchars
    by_cases hrest : tokens ⟨pos + size v + 1, rest⟩ = .ok []
    · rw [read_of_no_tokens hw hv hrest] at h
      cases h
    · rw [read_of_tokens hw hv hrest] at h
      obtain ⟨list, hlist, hheader⟩ := Except.map_eq_ok.1 h
      rw [← hheader]
      exact hlist
  · intro pos v w rest hv hw
    exact ⟨read_of_tokens hw hv, read_of_no_tokens hw hv⟩

namespace Shelf

/-- What stands before the colon, with blank space of two kinds around the name. -/
def before : List Char := " b1\t".toList

/-- What stands behind it: colons in strings and a letter of two bytes, on a second line. -/
def behind : List Char := " [':é', \"]:\"]\n.all(-1)".toList

/-- What stands behind it in a header that is at fault at its end. -/
def broken : List Char := " [':é',".toList

/-- The theorem at both of them: the name and the place of the list, and the place of the fault. -/
theorem read_divides_shelf :
    (trim before = "b1".toList ∧ Bindable "b1" ∧ tokens ⟨7 + size before + 1, broken⟩ ≠ .ok []) ∧
    (∃ header, read ⟨7, before ++ ':' :: behind⟩ = .ok header ∧ header.name = "b1" ∧
      header.list.span = ⟨13, 22⟩ ∧ ∃ v rest, before ++ ':' :: behind = v ++ ':' :: rest ∧
        ':' ∉ v ∧ Expr.read ⟨7 + size v + 1, rest⟩ = .ok header.list) ∧
    ∃ f, read ⟨7, before ++ ':' :: broken⟩ = .error f ∧ Expr.read ⟨12, broken⟩ = .error f ∧
      f.span = ⟨20, 0⟩ := by
  have hword : Bindable "b1" :=
    ⟨by decide, List.all_eq_true.1 (by decide), by decide, by decide⟩
  have htokens : ((tokens ⟨12, broken⟩).toOption.map List.length) = some 3 := by decide +kernel
  have hsome : tokens ⟨7 + size before + 1, broken⟩ ≠ .ok [] := by
    intro hnil
    rw [show tokens ⟨12, broken⟩ = .ok [] from hnil] at htokens
    cases htokens
  refine ⟨⟨by decide +kernel, hword, hsome⟩, ?_, ?_⟩
  · have hfound : (read ⟨7, before ++ ':' :: behind⟩).toOption.map
        (fun header => (header.name, header.list.span)) = some ("b1", ⟨13, 22⟩) := by
      decide +kernel
    obtain ⟨header, hread, hboth⟩ := Except.toOption_map_eq_some.1 hfound
    obtain ⟨hname, hspan⟩ := Prod.mk.inj hboth
    obtain ⟨v, rest, hchars, hcolon, -, -, hlist⟩ := read_divides.1 _ header hread
    exact ⟨header, hread, hname, hspan, v, rest, hchars, hcolon, hlist⟩
  · have hsame := (read_divides.2 7 before "b1" broken (by decide +kernel) hword).1 hsome
    have hfault : (match Expr.read ⟨12, broken⟩ with
        | .error f => some f.span
        | .ok _ => none) = some ⟨20, 0⟩ := by decide +kernel
    cases hread : Expr.read ⟨12, broken⟩ with
    | ok list =>
        rw [hread] at hfault
        cases hfault
    | error f =>
        rw [show Expr.read ⟨7 + size before + 1, broken⟩ = .error f from hread] at hsame
        rw [hread] at hfault
        exact ⟨f, hsame, rfl, Option.some.inj hfault⟩

end Shelf

end LoopHeader

end TypedTemplate
