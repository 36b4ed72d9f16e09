/-
# `TypedTemplate.Proofs.Expr.Cursor` — expressions read at byte offsets and by index

`Expr.tokens` takes characters from the front of an expression and `Expr.readFrom` tokens from
the front of a list.  Here both are read in place.  The tokens are found at offsets into the
expression: a number and a name are sliced out of it between the offsets where they begin and
end, and whether a sign or a point is followed by a digit is seen from the text behind it.  The
tokens are then looked up by index, with the one for the end last, and the index goes on
after every other.  `none` is a slice or an index that is out of range.

The offsets fall between characters and the index stays at the end, so the result is the same
(`Cursor.read_eq`, `Cursor.readHeader_eq`).
-/
import TypedTemplate.Proofs.Expr.Lexeme
import TypedTemplate.Proofs.Text.Offsets

namespace TypedTemplate.Expr.Cursor

open Text

/-! ## Tokens -/

/-- The offset at which a number ends, and the characters there.  A point belongs to it if it is the
first, and a digit stands behind it. -/
def numberEnd (text : List Char) (stop : Nat) (isFloat : Bool) :
    List Char → Option (Nat × List Char)
  | [] => some (stop, [])
  | c :: cs =>
    if c.isDigit then numberEnd text (stop + 1) isFloat cs
    else if c = '.' ∧ isFloat = false then do
      let behind ← dropBytes? (stop + 1) text
      if startsWhere Char.isDigit behind then numberEnd text (stop + 1) true cs
      else return (stop, c :: cs)
    else some (stop, c :: cs)

/-- The number that is written so. -/
def numeralOf : List Char → Numeral
  | '-' :: digits => (Numeral.read true digits).1
  | digits => (Numeral.read false digits).1

/-- The number that begins at `start`; its first character may be a sign, and is behind us. -/
def number (e : Excerpt) (start : Nat) (cs : List Char) :
    Option (Except (Fault Cause) (Token × List Char)) := do
  let (stop, rest) ← numberEnd e.chars (start + 1) false cs
  let written ← between? e.chars start stop
  let span : Span := ⟨e.offset + start, stop - start⟩
  match (numeralOf written).literal? with
  | some literal => return .ok (⟨.literal literal, span⟩, rest)
  | none => return .error ⟨.intOutOfRange (String.ofList written), span⟩

/-- A number begins with a digit, or with a sign that a digit stands behind. -/
def startsNumber (e : Excerpt) (start : Nat) (c : Char) : Option Bool :=
  if c = '-' then (dropBytes? (start + 1) e.chars).map (startsWhere Char.isDigit)
  else some c.isDigit

/-- The name that begins at `start`, where the characters are `cs`. -/
def name (e : Excerpt) (start : Nat) (cs : List Char) :
    Option (Except (Fault Cause) (Token × List Char)) := do
  let stop := start + size (cs.takeWhile isNameChar)
  let written ← between? e.chars start stop
  return .ok (⟨word (String.ofList written), ⟨e.offset + start, stop - start⟩⟩,
    cs.dropWhile isNameChar)

/-- The token that begins at `start` with the character `c`, which is not blank. -/
def lexeme (e : Excerpt) (start : Nat) (c : Char) (cs : List Char) :
    Option (Except (Fault Cause) (Token × List Char)) :=
  match punctuation? c with
  | some kind => some (.ok (⟨kind, ⟨e.offset + start, 1⟩⟩, cs))
  | none =>
    if c = '"' ∨ c = '\'' then
      match stringBody c cs with
      | some (body, rest) =>
        let stop := start + 1 + size body + 1
        some (.ok (⟨.literal (.string (String.ofList (unquote body))),
          ⟨e.offset + start, stop - start⟩⟩, rest))
      | none => some (.error ⟨.unterminatedString, ⟨e.offset + start, 1⟩⟩)
    else do
      if ← startsNumber e start c then number e start cs
      else if isNameStart c then name e start (c :: cs)
      else return .error ⟨.unexpectedCharacter c, ⟨e.offset + start, c.utf8Size⟩⟩

/-! ### Why finding them ends -/

theorem numberEnd_length {text cs rest : List Char} {n stop : Nat} {isFloat : Bool}
    (h : numberEnd text n isFloat cs = some (stop, rest)) : rest.length ≤ cs.length := by
  fun_induction numberEnd text n isFloat cs with
  | case1 =>
      cases h
      exact Nat.le_refl _
  | case2 _ _ _ _ _ ih => exact Nat.le_succ_of_le (ih h)
  | case3 n isFloat c cs _ _ ih =>
      obtain ⟨behind, -, h⟩ := Option.bind_eq_some_iff.1 h
      split at h
      · exact Nat.le_succ_of_le (ih h)
      · cases h
        exact Nat.le_refl _
  | case4 =>
      cases h
      exact Nat.le_refl _

/-- A token takes at least its first character. -/
theorem lexeme_length {e : Excerpt} {start : Nat} {c : Char} {cs rest : List Char} {t : Token}
    (h : lexeme e start c cs = some (.ok (t, rest))) : rest.length ≤ cs.length := by
  unfold lexeme at h
  split at h
  · cases h
    exact Nat.le_refl _
  · split at h
    · split at h
      · rename_i hbody
        cases h
        exact stringBody_length hbody
      · cases h
    · obtain ⟨starts, -, h⟩ := Option.bind_eq_some_iff.1 h
      split at h
      · obtain ⟨⟨stop, left⟩, hend, h⟩ := Option.bind_eq_some_iff.1 h
        obtain ⟨written, -, h⟩ := Option.bind_eq_some_iff.1 h
        split at h
        · cases h
          exact numberEnd_length hend
        · cases h
      · split at h
        · rename_i hstart
          obtain ⟨written, -, h⟩ := Option.bind_eq_some_iff.1 h
          cases h
          rw [List.dropWhile_cons_of_pos (isNameChar_of_isNameStart hstart)]
          exact dropWhile_length isNameChar cs
        · cases h

/-- The tokens from `start` on, where the characters are `cs`; the end of the expression is the
last of them. -/
def tokensFrom (e : Excerpt) (start : Nat) (cs : List Char) :
    Option (Except (Fault Cause) (List Token)) :=
  match cs with
  | [] => some (.ok [.stop e])
  | c :: cs =>
    if isBlank c then tokensFrom e (start + c.utf8Size) cs
    else
      match _h : lexeme e start c cs with
      | none => none
      | some (.error fault) => some (.error fault)
      | some (.ok (token, rest)) =>
        (tokensFrom e (token.span.stop - e.offset) rest).map (Except.map (token :: ·))
termination_by cs.length
decreasing_by
  · simp
  · exact Nat.lt_succ_of_le (lexeme_length _h)

/-- The tokens of an excerpt. -/
def tokens (e : Excerpt) : Option (Except (Fault Cause) (List Token)) := tokensFrom e 0 e.chars

/-! ## Reading -/

/-- Reads on from the token at `pos`; the one for the end is not passed. -/
def readFrom (ts : List Token) (s : State) (pos : Nat) : Option (Except (Fault Cause) Expr) :=
  match _h : ts[pos]? with
  | none => none
  | some ⟨.stop, span⟩ => some (s.finish ⟨.stop, span⟩)
  | some t =>
    match s.step t with
    | .ok s => readFrom ts s (pos + 1)
    | .error fault => some (.error fault)
termination_by ts.length - pos
decreasing_by
  have hlt := (List.getElem?_eq_some_iff.1 _h).1
  omega

/-- The expression that stands in an excerpt. -/
def read (e : Excerpt) : Option (Except (Fault Cause) Expr) := do
  match ← tokens e with
  | .error fault => return .error fault
  | .ok ts => readFrom ts .start 0

/-- The loop header that the tokens of an excerpt form; the name, the colon and the first token of
the list are looked at one by one. -/
def headerOf (e : Excerpt) (ts : List Token) : Option (Except (Fault Cause) LoopHeader) := do
  let malformed : Except (Fault Cause) LoopHeader :=
    .error ⟨.malformedLoop (String.ofList e.chars), e.span⟩
  match (← ts[0]?).kind with
  | .name word =>
    if LoopHeader.isLoopName word then
      match (← ts[1]?).kind with
      | .colon =>
        match (← ts[2]?).kind with
        | .stop => return malformed
        | _ => return (← readFrom ts .start 2).map fun list => ⟨word, list⟩
      | _ => return malformed
    else return malformed
  | _ => return malformed

/-- The loop header that stands in an excerpt. -/
def readHeader (e : Excerpt) : Option (Except (Fault Cause) LoopHeader) := do
  match ← tokens e with
  | .error fault => return .error fault
  | .ok ts => headerOf e ts

/-! ## The same tokens -/

variable {e : Excerpt} {start stop : Nat} {c : Char} {cs : List Char}

theorem utf8Size_of_isDigit (h : c.isDigit = true) : c.utf8Size = 1 := by
  have hle : c.toNat ≤ 57 := (Bool.and_eq_true_iff.1 h).2 |> of_decide_eq_true
  exact utf8Size_eq_one (by omega)

theorem dropBytes?_tail {text : List Char} (h : dropBytes? stop text = some (c :: cs))
    (hc : c.utf8Size = 1) : dropBytes? (stop + 1) text = some cs := by
  rw [dropBytes?_add h, ← hc, ← Nat.add_zero c.utf8Size]
  exact dropBytes?_append [c] cs

/-- Once a point has been passed only digits belong to the number. -/
theorem numberEnd_true (text : List Char) (stop : Nat) (cs : List Char) :
    numberEnd text stop true cs =
      some (stop + size (cs.takeWhile Char.isDigit), cs.dropWhile Char.isDigit) := by
  induction cs generalizing stop with
  | nil => rfl
  | cons c cs ih =>
      rw [numberEnd]
      cases hc : c.isDigit with
      | true =>
          rw [if_pos rfl, ih, List.takeWhile_cons_of_pos hc, List.dropWhile_cons_of_pos hc,
            size_cons, utf8Size_of_isDigit hc, Nat.add_assoc]
      | false => simp [hc]

theorem read_cons (negative : Bool) (h : c.isDigit = true) : Numeral.read negative (c :: cs) =
    (⟨negative, c :: (Numeral.read negative cs).1.whole, (Numeral.read negative cs).1.fraction⟩,
      (Numeral.read negative cs).2) := by
  rw [Numeral.read, Numeral.read, List.takeWhile_cons_of_pos h, List.dropWhile_cons_of_pos h]
  split
  · split <;> rfl
  · rfl

/-- A point at the beginning belongs to the number if a digit stands behind it. -/
theorem read_point (negative : Bool) (d : Char) (more : List Char) :
    Numeral.read negative ('.' :: d :: more) = if d.isDigit then
      (⟨negative, [], some ((d :: more).takeWhile Char.isDigit)⟩,
        (d :: more).dropWhile Char.isDigit)
    else (⟨negative, [], none⟩, '.' :: d :: more) :=
  rfl

theorem numberEnd_false {text : List Char} (negative : Bool) (h : dropBytes? stop text = some cs) :
    numberEnd text stop false cs = some (stop + size (Numeral.read negative cs).1.unsigned,
      (Numeral.read negative cs).2) := by
  induction cs generalizing stop with
  | nil => rfl
  | cons c cs ih =>
      rw [numberEnd]
      cases hc : c.isDigit with
      | true =>
          have hsize := utf8Size_of_isDigit hc
          rw [if_pos rfl, ih (dropBytes?_tail h hsize), read_cons negative hc]
          simp only [Numeral.unsigned, List.cons_append, size_cons, hsize, Nat.add_assoc]
      | false =>
          rw [if_neg Bool.false_ne_true]
          by_cases hpoint : c = '.'
          · subst hpoint
            have hbehind := dropBytes?_tail h rfl
            cases cs with
            | nil => simp [hbehind, startsWhere, Numeral.read, Numeral.unsigned]
            | cons d more =>
                cases hd : d.isDigit with
                | true =>
                    have hstarts : startsWhere Char.isDigit (d :: more) = true := hd
                    have hone : Char.utf8Size '.' = 1 := rfl
                    simp only [hbehind, hstarts, numberEnd_true, read_point, hd, if_true, and_self,
                      Option.bind_eq_bind, Option.bind_some, Numeral.unsigned, List.nil_append,
                      size_cons '.', hone, Nat.add_assoc]
                | false => simp [hbehind, startsWhere, hd, Numeral.read, Numeral.unsigned]
          · simp [hpoint, Numeral.read, Numeral.unsigned, hc]

theorem read_negative (negative : Bool) (cs : List Char) :
    (Numeral.read negative cs).1.negative = negative := by
  unfold Numeral.read
  split
  · split <;> rfl
  · rfl

/-- A number by itself is read as it is read in the text. -/
theorem numeralOf_chars (negative : Bool) (h : startsWhere Char.isDigit cs = true) :
    numeralOf (Numeral.read negative cs).1.chars = (Numeral.read negative cs).1 := by
  have hends := Numeral.ends_read negative h
  have hnil : (Numeral.read negative cs).1.Ends [] := { hends with digit := rfl, point := nofun }
  have hread := hnil.read
  rw [List.append_nil, read_negative] at hread
  rw [Numeral.chars_eq, read_negative]
  cases negative with
  | true =>
      show (Numeral.read true (Numeral.read true cs).1.unsigned).1 = _
      rw [hread]
  | false =>
      -- the first character is a digit, and not a sign
      have hdigit := hends.startsWhere []
      rw [List.append_nil] at hdigit
      rw [if_neg Bool.false_ne_true, List.nil_append]
      unfold numeralOf
      split
      · rename_i hminus
        rw [hminus] at hdigit
        cases hdigit
      · rw [hread]

theorem number_eq (h : dropBytes? start e.chars = some (c :: cs))
    (hstarts : Expr.startsNumber c cs = true) :
    number e start cs = some (Expr.number (e.offset + start) c cs) := by
  have hfound (negative : Bool) (digits : List Char)
      (hdigit : startsWhere Char.isDigit digits = true)
      (hchars : (if negative then ['-'] else []) ++ digits = c :: cs)
      (hend : numberEnd e.chars (start + 1) false cs = some
        (start + size (Numeral.read negative digits).1.chars, (Numeral.read negative digits).2)) :
      number e start cs = some (match (Numeral.read negative digits).1.literal? with
        | some literal => .ok (⟨.literal literal,
            .ofChars (e.offset + start) (Numeral.read negative digits).1.chars⟩,
              (Numeral.read negative digits).2)
        | none => .error ⟨.intOutOfRange (String.ofList (Numeral.read negative digits).1.chars),
            .ofChars (e.offset + start) (Numeral.read negative digits).1.chars⟩) := by
    have hwritten : between? e.chars start (start + size (Numeral.read negative digits).1.chars) =
        some (Numeral.read negative digits).1.chars :=
      between?_of_dropBytes? (by rw [h, ← hchars, Numeral.chars_read]) rfl
    simp only [number, hend, hwritten, numeralOf_chars negative hdigit, Option.bind_eq_bind,
      Option.bind_some, Nat.add_sub_cancel_left]
    cases (Numeral.read negative digits).1.literal? <;> rfl
  unfold Expr.number
  by_cases hminus : c = '-'
  · subst hminus
    rw [if_pos rfl]
    refine hfound true cs hstarts rfl ?_
    rw [numberEnd_false true (dropBytes?_tail h rfl), Numeral.chars_eq, read_negative, if_pos rfl,
      size_append, ← Nat.add_assoc]
    rfl
  · rw [if_neg hminus]
    have hdigit : c.isDigit = true := by simpa [Expr.startsNumber, hminus] using hstarts
    have hsize := utf8Size_of_isDigit hdigit
    refine hfound false (c :: cs) hdigit rfl ?_
    rw [numberEnd_false false (dropBytes?_tail h hsize), Numeral.chars_eq, read_negative,
      if_neg Bool.false_ne_true, List.nil_append, read_cons false hdigit]
    simp only [Numeral.unsigned, List.cons_append, size_cons, hsize, Nat.add_assoc]

theorem startsNumber_eq (h : dropBytes? start e.chars = some (c :: cs)) :
    startsNumber e start c = some (Expr.startsNumber c cs) := by
  rw [startsNumber, Expr.startsNumber]
  by_cases hminus : c = '-'
  · subst hminus
    rw [if_pos rfl, dropBytes?_tail h rfl]
    rfl
  · have hnot : (c == '-') = false := beq_eq_false_iff_ne.2 hminus
    rw [if_neg hminus, hnot, Bool.false_and, Bool.or_false]

theorem name_eq (h : dropBytes? start e.chars = some (c :: cs)) (hstart : isNameStart c = true) :
    name e start (c :: cs) = some (.ok (⟨word (String.ofList (c :: cs.takeWhile isNameChar)),
      .ofChars (e.offset + start) (c :: cs.takeWhile isNameChar)⟩, cs.dropWhile isNameChar)) := by
  have hchar := isNameChar_of_isNameStart hstart
  have htake : (c :: cs).takeWhile isNameChar = c :: cs.takeWhile isNameChar :=
    List.takeWhile_cons_of_pos hchar
  have hdrop : (c :: cs).dropWhile isNameChar = cs.dropWhile isNameChar :=
    List.dropWhile_cons_of_pos hchar
  have hsplit : c :: cs = c :: cs.takeWhile isNameChar ++ cs.dropWhile isNameChar :=
    congrArg (c :: ·) List.takeWhile_append_dropWhile.symm
  have hwritten := between?_of_dropBytes? (h.trans (congrArg some hsplit)) rfl
  simp only [name, htake, hdrop, hwritten, Option.bind_eq_bind, Option.bind_some, Option.pure_def,
    Nat.add_sub_cancel_left]
  rfl

/-- Where a character stands, the cursor finds the token that is read from there. -/
theorem lexeme_eq (h : dropBytes? start e.chars = some (c :: cs)) :
    lexeme e start c cs = some (Expr.lexeme (e.offset + start) c cs) := by
  unfold lexeme Expr.lexeme
  cases punctuation? c with
  | some kind => rfl
  | none =>
      by_cases hquote : c = '"' ∨ c = '\''
      · simp only [if_pos hquote]
        cases stringBody c cs with
        | none => rfl
        | some found =>
            obtain ⟨body, rest⟩ := found
            have hlength : start + 1 + size body + 1 - start = size body + 2 := by omega
            simp only [hlength]
      · simp only [if_neg hquote, startsNumber_eq h, Option.bind_eq_bind, Option.bind_some]
        by_cases hstarts : Expr.startsNumber c cs = true
        · rw [if_pos hstarts, if_pos hstarts]
          exact number_eq h hstarts
        · rw [if_neg hstarts, if_neg hstarts]
          by_cases hstart : isNameStart c = true
          · rw [if_pos hstart, if_pos hstart]
            exact name_eq h hstart
          · rw [if_neg hstart, if_neg hstart]
            rfl

/-- Wherever the cursor stands between two characters it finds the tokens that are read from the
characters after it, and the end behind them. -/
theorem tokensFrom_eq (h : dropBytes? start e.chars = some cs) : tokensFrom e start cs =
    some ((Expr.tokensFrom (e.offset + start) cs).map (· ++ [.stop e])) := by
  fun_induction tokensFrom e start cs with
  | case1 => rw [Expr.tokensFrom]; rfl
  | case2 start c cs hblank ih =>
      rw [tokensFrom_cons, if_pos hblank, Nat.add_assoc]
      refine ih ?_
      rw [dropBytes?_add h, ← Nat.add_zero c.utf8Size]
      exact dropBytes?_append [c] cs
  | case3 start c cs hblank hlexeme =>
      rw [lexeme_eq h] at hlexeme
      cases hlexeme
  | case4 start c cs hblank fault hlexeme =>
      rw [lexeme_eq h] at hlexeme
      rw [tokensFrom_cons, if_neg hblank, Option.some.inj hlexeme]
      rfl
  | case5 start c cs hblank token rest hlexeme ih =>
      rw [lexeme_eq h] at hlexeme
      have hfound := Option.some.inj hlexeme
      obtain ⟨taken, htaken, -, hspan⟩ := lexeme_eq_ok.1 hfound
      have hstop : token.span.stop = e.offset + (start + size taken) := by
        rw [hspan]
        exact Nat.add_assoc _ _ _
      have hnext : token.span.stop - e.offset = start + size taken := by omega
      have hrest : dropBytes? (token.span.stop - e.offset) e.chars = some rest := by
        rw [hnext, dropBytes?_add h, htaken]
        exact dropBytes?_append taken rest
      rw [ih hrest, tokensFrom_cons, if_neg hblank, hfound, hnext, ← hstop]
      show _ = some ((Except.map (token :: ·) (Expr.tokensFrom token.span.stop rest)).map _)
      cases Expr.tokensFrom token.span.stop rest <;> rfl

theorem tokens_eq (e : Excerpt) : tokens e = some ((Expr.tokens e).map (· ++ [.stop e])) :=
  tokensFrom_eq (dropBytes?_zero e.chars)

/-! ## The same expression -/

variable {ts : List Token}

/-- At the end. -/
theorem readFrom_stop {s : State} {pos : Nat} {span : Span} (h : ts[pos]? = some ⟨.stop, span⟩) :
    readFrom ts s pos = some (s.finish ⟨.stop, span⟩) := by
  rw [readFrom]
  split
  · rename_i hnone
    rw [hnone] at h
    cases h
  · rename_i hstop
    cases hstop.symm.trans h
    rfl
  · rename_i hkind hsome
    cases hsome.symm.trans h
    exact (hkind _ rfl).elim

/-- Before the end. -/
theorem readFrom_step {s : State} {pos : Nat} {t : Token} (h : ts[pos]? = some t)
    (hkind : t.kind ≠ .stop) : readFrom ts s pos = match s.step t with
      | .ok s => readFrom ts s (pos + 1)
      | .error fault => some (.error fault) := by
  rw [readFrom]
  split
  · rename_i hnone
    rw [hnone] at h
    cases h
  · rename_i hstop
    cases hstop.symm.trans h
    exact (hkind rfl).elim
  · rename_i hsome
    cases hsome.symm.trans h
    rfl

/-- The index comes to the end of the tokens, and no further. -/
theorem readFrom_eq (e : Excerpt) (before : List Token) (s : State)
    (h : ∀ t ∈ ts, t.kind ≠ .stop) :
    readFrom (before ++ (ts ++ [.stop e])) s before.length = some (Expr.readFrom s (.stop e) ts) := by
  have hhere (t : Token) (more : List Token) : (before ++ t :: more)[before.length]? = some t := by
    simp
  induction ts generalizing s before with
  | nil => exact readFrom_stop (hhere _ _)
  | cons t ts ih =>
      obtain ⟨ht, hts⟩ := List.forall_mem_cons.1 h
      rw [List.cons_append, readFrom_step (hhere _ _) ht, readFrom_cons]
      cases s.step t with
      | error fault => rfl
      | ok next =>
          have hnext := ih (before ++ [t]) next hts fun u more => by simp
          rw [List.append_assoc, List.length_append] at hnext
          exact hnext

/-- No slice of the expression and no index into its tokens is out of range, and the expression
read is the same. -/
theorem read_eq (e : Excerpt) : read e = some (Expr.read e) := by
  rw [read, tokens_eq, Expr.read]
  cases hts : Expr.tokens e with
  | error fault => rfl
  | ok ts => exact readFrom_eq e [] .start (kind_ne_stop_of_mem hts)

/-- There is a token at each of the three places that are looked at. -/
theorem headerOf_eq (e : Excerpt) (h : ∀ t ∈ ts, t.kind ≠ .stop) :
    headerOf e (ts ++ [.stop e]) = some (LoopHeader.ofTokens e ts) := by
  rcases ts with _ | ⟨⟨kind, span⟩, ts⟩
  · rfl
  · cases kind with
    | name word =>
        rcases ts with _ | ⟨⟨kind, span'⟩, ts⟩
        · exact ite_self _
        · cases kind with
          | colon =>
              rcases ts with _ | ⟨⟨kind, span''⟩, ts⟩
              · exact ite_self _
              · -- the list begins behind the colon
                have hlater : ∀ t ∈ ⟨kind, span''⟩ :: ts, t.kind ≠ .stop :=
                  (List.forall_mem_cons.1 (List.forall_mem_cons.1 h).2).2
                have hkind : kind ≠ .stop := hlater _ List.mem_cons_self
                have hlist := readFrom_eq e [⟨.name word, span⟩, ⟨.colon, span'⟩] .start hlater
                have hheader := congrArg (fun found : Option (Except (Fault Cause) Expr) =>
                  found.bind fun list => some (list.map fun list => LoopHeader.mk word list)) hlist
                show (if LoopHeader.isLoopName word = true then _ else _) =
                  some (if LoopHeader.isLoopName word = true then _ else _)
                by_cases hname : LoopHeader.isLoopName word = true
                · rw [if_pos hname, if_pos hname]
                  cases kind with
                  | stop => exact (hkind rfl).elim
                  | _ => exact hheader
                · rw [if_neg hname, if_neg hname]
                  rfl
          | _ => exact ite_self _
    | _ => rfl

/-- No slice or index of a loop header is out of range either, and it reads the same. -/
theorem readHeader_eq (e : Excerpt) : readHeader e = some (LoopHeader.read e) := by
  rw [readHeader, tokens_eq, LoopHeader.read]
  cases hts : Expr.tokens e with
  | error fault => rfl
  | ok ts => exact headerOf_eq e (kind_ne_stop_of_mem hts)

end TypedTemplate.Expr.Cursor
