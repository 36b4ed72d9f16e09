/-
# `TypedTemplate.Expr.Scan` — dividing an expression into tokens

`tokens` reads an expression from the left, one token at a time (`lexeme`).  A number
is written in ASCII digits, with a minus sign directly before them and a point only
between digits.  A string stands in quotes of either kind; a backslash takes the
next character as it is, save for `\n` and `\t`.  A name begins with a letter of any
script or an underscore and goes on with letters, digits and underscores.

No token is empty (`lexeme_length`), so the reading ends.
-/
import TypedTemplate.Text.Alphabetic
import TypedTemplate.Text.Blank
import TypedTemplate.Text.Cut
import TypedTemplate.Text.Numeric
import TypedTemplate.Fault
import TypedTemplate.Expr.Fault

namespace TypedTemplate.Expr

open Text

/-! ## Names -/

/-- A character that a name may begin with. -/
def isNameStart (c : Char) : Bool := isAlphabetic c || c == '_'

/-- A character that a name may go on with. -/
def isNameChar (c : Char) : Bool := isAlphabetic c || isNumeric c || c == '_'

/-- A word is a name unless it is `true` or `false`. -/
def word (w : String) : TokenKind :=
  if w = "true" then .literal (.bool true)
  else if w = "false" then .literal (.bool false)
  else .name w

/-! ## Strings -/

/-- The characters up to the first `quote` that no backslash precedes, and those after it. -/
def stringBody (quote : Char) : List Char → Option (List Char × List Char)
  | [] => none
  | c :: cs =>
    if c = quote then some ([], cs)
    else if c = '\\' then
      match cs with
      | [] => none
      | d :: cs => (stringBody quote cs).map fun (body, rest) => (c :: d :: body, rest)
    else (stringBody quote cs).map fun (body, rest) => (c :: body, rest)

/-- The character that a backslash and `c` stand for. -/
def escaped (c : Char) : Char :=
  if c = 'n' then '\n' else if c = 't' then '\t' else c

/-- What the characters between the quotes stand for. -/
def unquote : List Char → List Char
  | '\\' :: c :: cs => escaped c :: unquote cs
  | c :: cs => c :: unquote cs
  | [] => []

/-! ## Numbers -/

/-- A number as written: a sign, digits, and digits after a point if there is one. -/
structure Numeral where
  negative : Bool
  whole : List Char
  fraction : Option (List Char)

namespace Numeral

/-- The number that begins here with its first digit.  A point belongs to it only if a digit
follows. -/
def read (negative : Bool) (cs : List Char) : Numeral × List Char :=
  let whole := cs.takeWhile Char.isDigit
  match cs.dropWhile Char.isDigit with
  | '.' :: d :: more =>
    if d.isDigit then
      (⟨negative, whole, some ((d :: more).takeWhile Char.isDigit)⟩,
        (d :: more).dropWhile Char.isDigit)
    else (⟨negative, whole, none⟩, '.' :: d :: more)
  | rest => (⟨negative, whole, none⟩, rest)

/-- The number as it stands in the text. -/
def chars (n : Numeral) : List Char :=
  (if n.negative then ['-'] else []) ++ n.whole ++
    match n.fraction with
    | some fraction => '.' :: fraction
    | none => []

/-- The number that a run of digits stands for. -/
def ofDigits (cs : List Char) : Nat :=
  cs.foldl (fun n c => 10 * n + (c.toNat - '0'.toNat)) 0

/-- The 64-bit whole number, if it is one. -/
def int64? (negative : Bool) (whole : List Char) : Option Int64 :=
  let magnitude : Int := ofDigits whole
  let i := if negative then -magnitude else magnitude
  if Int64.minValue.toInt ≤ i ∧ i ≤ Int64.maxValue.toInt then some (Int64.ofInt i) else none

/-- The double nearest to the decimal. -/
def toFloat (negative : Bool) (whole fraction : List Char) : Float :=
  let x := Float.ofScientific (ofDigits (whole ++ fraction)) true fraction.length
  if negative then -x else x

/-- The literal that the number stands for; a whole number has to fit 64 bits. -/
def literal? (n : Numeral) : Option Literal :=
  match n.fraction with
  | some fraction => some (.float (toFloat n.negative n.whole fraction))
  | none => (int64? n.negative n.whole).map .int

end Numeral

/-! ## One token -/

/-- The punctuation that is a token by itself. -/
def punctuation? (c : Char) : Option TokenKind :=
  if c = '.' then some .dot
  else if c = ',' then some .comma
  else if c = ':' then some .colon
  else if c = '!' then some .bang
  else if c = '(' then some .openParen
  else if c = ')' then some .closeParen
  else if c = '[' then some .openBracket
  else if c = ']' then some .closeBracket
  else none

/-- A number begins here. -/
def startsNumber (c : Char) (cs : List Char) : Bool :=
  c.isDigit || (c == '-' && startsWhere Char.isDigit cs)

/-- The number token that begins here. -/
def number (pos : Nat) (c : Char) (cs : List Char) : Except (Fault Cause) (Token × List Char) :=
  let (n, rest) := if c = '-' then Numeral.read true cs else Numeral.read false (c :: cs)
  let span := Span.ofChars pos n.chars
  match n.literal? with
  | some literal => .ok (⟨.literal literal, span⟩, rest)
  | none => .error ⟨.intOutOfRange (String.ofList n.chars), span⟩

/-- The token that begins with the character `c`, which is not blank. -/
def lexeme (pos : Nat) (c : Char) (cs : List Char) : Except (Fault Cause) (Token × List Char) :=
  match punctuation? c with
  | some kind => .ok (⟨kind, ⟨pos, 1⟩⟩, cs)
  | none =>
    if c = '"' ∨ c = '\'' then
      match stringBody c cs with
      | some (body, rest) =>
        .ok (⟨.literal (.string (String.ofList (unquote body))), ⟨pos, size body + 2⟩⟩, rest)
      | none => .error ⟨.unterminatedString, ⟨pos, 1⟩⟩
    else if startsNumber c cs then number pos c cs
    else if isNameStart c then
      let w := c :: cs.takeWhile isNameChar
      .ok (⟨word (String.ofList w), .ofChars pos w⟩, cs.dropWhile isNameChar)
    else .error ⟨.unexpectedCharacter c, ⟨pos, c.utf8Size⟩⟩

/-! ## Why reading ends -/

theorem stringBody_length {quote : Char} {cs body rest : List Char}
    (h : stringBody quote cs = some (body, rest)) : rest.length ≤ cs.length := by
  fun_induction stringBody quote cs generalizing body with
  | case1 => simp at h
  | case2 cs =>
    simp only [Option.some.injEq, Prod.mk.injEq] at h
    obtain ⟨-, rfl⟩ := h
    simp
  | case3 => simp at h
  | case4 d cs _ ih =>
    obtain ⟨⟨b, r⟩, hbody, heq⟩ := Option.map_eq_some_iff.1 h
    simp only [Prod.mk.injEq] at heq
    obtain ⟨-, rfl⟩ := heq
    have := ih hbody
    simp only [List.length_cons]
    omega
  | case5 c cs _ _ ih =>
    obtain ⟨⟨b, r⟩, hbody, heq⟩ := Option.map_eq_some_iff.1 h
    simp only [Prod.mk.injEq] at heq
    obtain ⟨-, rfl⟩ := heq
    have := ih hbody
    simp only [List.length_cons]
    omega

theorem Numeral.read_length (negative : Bool) (cs : List Char) :
    (read negative cs).2.length ≤ (cs.dropWhile Char.isDigit).length := by
  unfold read
  split
  · rename_i d more hrest
    split
    · have := dropWhile_length Char.isDigit (d :: more)
      simp only [hrest, List.length_cons] at this ⊢
      omega
    · simp [hrest]
  · simp

theorem number_length {pos : Nat} {c : Char} {cs rest : List Char} {t : Token}
    (hc : startsNumber c cs = true) (h : number pos c cs = .ok (t, rest)) :
    rest.length ≤ cs.length := by
  have key : ((if c = '-' then Numeral.read true cs else Numeral.read false (c :: cs)).2).length
      ≤ cs.length := by
    split
    · exact Nat.le_trans (Numeral.read_length true cs) (dropWhile_length Char.isDigit cs)
    · rename_i hminus
      have hd : c.isDigit = true := by
        simpa [startsNumber, hminus] using hc
      refine Nat.le_trans (Numeral.read_length false (c :: cs)) ?_
      rw [List.dropWhile_cons, if_pos hd]
      exact dropWhile_length Char.isDigit cs
  unfold number at h
  simp only at h
  split at h
  · simp only [Except.ok.injEq, Prod.mk.injEq] at h
    rw [← h.2]
    exact key
  · simp at h

/-- A token takes at least its first character. -/
theorem lexeme_length {pos : Nat} {c : Char} {cs rest : List Char} {t : Token}
    (h : lexeme pos c cs = .ok (t, rest)) : rest.length ≤ cs.length := by
  unfold lexeme at h
  split at h
  · simp only [Except.ok.injEq, Prod.mk.injEq] at h
    exact Nat.le_of_eq (congrArg List.length h.2.symm)
  · split at h
    · split at h
      · rename_i body left hbody
        simp only [Except.ok.injEq, Prod.mk.injEq] at h
        rw [← h.2]
        exact stringBody_length hbody
      · simp at h
    · split at h
      · rename_i hnumber
        exact number_length hnumber h
      · split at h
        · simp only [Except.ok.injEq, Prod.mk.injEq] at h
          rw [← h.2]
          exact dropWhile_length isNameChar cs
        · simp at h

/-! ## The whole expression -/

/-- The tokens from `pos` on. -/
def tokensFrom (pos : Nat) (cs : List Char) : Except (Fault Cause) (List Token) :=
  match cs with
  | [] => .ok []
  | c :: cs =>
    if isBlank c then tokensFrom (pos + c.utf8Size) cs
    else
      match _h : lexeme pos c cs with
      | .error fault => .error fault
      | .ok (token, rest) => (tokensFrom token.span.stop rest).map (token :: ·)
termination_by cs.length
decreasing_by
  · simp
  · have := lexeme_length _h
    simp only [List.length_cons]
    omega

/-- The tokens of an excerpt, without the one that stands for its end. -/
def tokens (e : Excerpt) : Except (Fault Cause) (List Token) := tokensFrom e.offset e.chars

end TypedTemplate.Expr
