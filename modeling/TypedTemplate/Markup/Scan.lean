/-
# `TypedTemplate.Markup.Scan` — dividing a text into tokens

`scan` reads a text from the left.  What may come next depends on where the reader
is (`Mode`): between elements, inside a start tag, or in the body of a raw text
element; the three `next…` functions say what it is, and each answers with the
token and the characters after it, or with a fault.  Reading stops at the first
fault, and the tokens before it are kept, because one of them may be at fault
earlier in the text for a reason that only the tree knows.

Every step takes at least one character or leaves the body of a raw text element
(`next_decreases`), which is why the reading ends.
-/
import TypedTemplate.Text.Blank
import TypedTemplate.Text.Cut
import TypedTemplate.Fault
import TypedTemplate.Markup.Token
import TypedTemplate.Markup.Fault
import TypedTemplate.Markup.Vocabulary

namespace TypedTemplate.Markup

open Text

/-! ## What begins here -/

/-- What a `<` can begin. -/
inductive Opening where
  | comment
  | closeTag
  | openTag
deriving Repr, DecidableEq

/-- What begins at this place.  A `<` before anything but a letter is character data. -/
def opening? : List Char → Option Opening
  | '<' :: '!' :: '-' :: '-' :: _ => some .comment
  | '<' :: '/' :: _ => some .closeTag
  | '<' :: c :: _ => if c.isAlpha then some .openTag else none
  | _ => none

/-- The characters of a tag name. -/
def isTagNameChar (c : Char) : Bool := c.isAlphanum || c == '-' || c == '_' || c == ':'

/-- A comment ends here. -/
def endsComment : List Char → Bool
  | '-' :: '-' :: '>' :: _ => true
  | _ => false

/-- An attribute name cannot go on here. -/
def endsAttributeName : List Char → Bool
  | [] => true
  | '/' :: '>' :: _ => true
  | c :: _ => isAsciiBlank c || c == '=' || c == '>' || c == '"' || c == '\'' || c == '<'

/-- The end tag of the raw text element `name` begins here, in capitals or not. -/
def endsRawText (name : List Char) : List Char → Bool
  | '<' :: '/' :: cs =>
    (cs.take name.length).map Char.toLower == name &&
      startsWhere (fun c => c == '>' || isAsciiBlank c) (cs.drop name.length)
  | _ => false

/-! ## One step -/

/-- Where the reader is. -/
inductive Mode where
  /-- Between elements. -/
  | content
  /-- Inside the start tag of `element`, which begins at `opened`. -/
  | tag (opened : Nat) (element : String)
  /-- In the body of a raw text element whose start tag begins at `opened`. -/
  | raw (opened : Nat) (element : String)
deriving Repr, DecidableEq

/-- What a step finds. -/
inductive Step where
  /-- The text is at its end. -/
  | finished
  | failed (fault : Fault LexicalCause)
  /-- A token, the mode after it and the characters after it. -/
  | found (token : Token) (mode : Mode) (rest : List Char)

/-- The next token between elements. -/
def nextContent (pos : Nat) (cs : List Char) : Step :=
  match opening? cs with
  | some .comment =>
    match cut? endsComment (cs.drop 4) with
    | some (body, rest) =>
      let content := cs.take 4 ++ body ++ rest.take 3
      .found (.comment (String.ofList content) (.ofChars pos content)) .content (rest.drop 3)
    | none => .failed ⟨.unterminatedComment, ⟨pos, 4⟩⟩
  | some .closeTag =>
    match cut? (startsWith '>') (cs.drop 2) with
    | some (inner, rest) =>
      .found (.closeTag (String.ofList inner) ⟨pos, size inner + 3⟩) .content (rest.drop 1)
    | none => .failed ⟨.unterminatedEndTag, ⟨pos, 2⟩⟩
  | some .openTag =>
    let name := (cs.drop 1).takeWhile isTagNameChar
    .found (.openTag (String.ofList name) ⟨pos, size name + 1⟩) (.tag pos (String.ofList name))
      ((cs.drop 1).dropWhile isTagNameChar)
  | none =>
    match cs with
    | [] => .finished
    | c :: cs =>
      let (more, rest) := cut (fun cs => (opening? cs).isSome) cs
      .found (.text (String.ofList (c :: more)) (.ofChars pos (c :: more))) .content rest

/-- The value that follows an `=`, its span counted from `pos`, and the characters after it. -/
def attributeValue (pos : Nat) (cs : List Char) :
    Except LexicalCause (AttributeValue × List Char) :=
  match cs with
  | '"' :: cs =>
    match cut? (startsWith '"') cs with
    | some (body, rest) =>
      .ok (⟨String.ofList body, .double, .ofChars (pos + 1) body⟩, rest.drop 1)
    | none => .error .unterminatedValue
  | '\'' :: cs =>
    match cut? (startsWith '\'') cs with
    | some (body, rest) =>
      .ok (⟨String.ofList body, .single, .ofChars (pos + 1) body⟩, rest.drop 1)
    | none => .error .unterminatedValue
  | cs =>
    match cut (startsWhere fun c => c == '>' || isAsciiBlank c) cs with
    | ([], _) => .error .missingValue
    | (body, rest) => .ok (⟨String.ofList body, .unquoted, .ofChars pos body⟩, rest)

/-- The length of a value as written, its quotes and the `=` before it included. -/
def AttributeValue.writtenLength (value : AttributeValue) : Nat :=
  match value.quote with
  | .unquoted => value.span.length + 1
  | .double | .single => value.span.length + 3

/-- The next token inside a start tag, at a place that is not blank. -/
def nextPart (opened : Nat) (element : String) (pos : Nat) (cs : List Char) : Step :=
  match cs with
  | [] => .failed ⟨.unterminatedStartTag, ⟨opened, 1⟩⟩
  | '/' :: '>' :: rest => .found (.tagSelfClose ⟨pos, 2⟩) .content rest
  | '>' :: rest =>
    .found (.tagEnd ⟨pos, 1⟩) (if isRawText element then .raw opened element else .content) rest
  | '=' :: rest =>
    match attributeValue (pos + 1) rest with
    | .ok (value, rest) =>
      .found (.attributeValue value ⟨pos, value.writtenLength⟩) (.tag opened element) rest
    | .error cause => .failed ⟨cause, ⟨pos, 1⟩⟩
  | c :: cs =>
    match cut endsAttributeName (c :: cs) with
    | ([], _) => .failed ⟨.unexpectedCharacter, ⟨pos, c.utf8Size⟩⟩
    | (name, rest) =>
      .found (.attributeName (String.ofList name) (.ofChars pos name)) (.tag opened element) rest

/-- The next token inside a start tag; blank space before it is skipped. -/
def nextInTag (opened : Nat) (element : String) (pos : Nat) (cs : List Char) : Step :=
  nextPart opened element (pos + size (cs.takeWhile isBlank)) (cs.dropWhile isBlank)

/-- The body of a raw text element. -/
def nextRaw (opened : Nat) (element : String) (pos : Nat) (cs : List Char) : Step :=
  match cut? (endsRawText element.toList) cs with
  | some (body, rest) => .found (.rawText (String.ofList body) (.ofChars pos body)) .content rest
  | none => .failed ⟨.unclosedRawText element, ⟨opened, 1⟩⟩

/-- The next token. -/
def next (mode : Mode) (pos : Nat) (cs : List Char) : Step :=
  match mode with
  | .content => nextContent pos cs
  | .tag opened element => nextInTag opened element pos cs
  | .raw opened element => nextRaw opened element pos cs

/-! ## Why reading ends -/

/-- The body of a raw text element may be empty; leaving it counts as progress. -/
def Mode.weight : Mode → Nat
  | .content => 0
  | .tag _ _ => 0
  | .raw _ _ => 1

theorem opening?_nil : opening? [] = none := rfl

theorem nextContent_decreases {pos : Nat} {cs : List Char} {t : Token} {m : Mode}
    {rest : List Char} (h : nextContent pos cs = .found t m rest) :
    rest.length < cs.length ∧ m.weight = 0 := by
  cases cs with
  | nil => simp [nextContent, opening?_nil] at h
  | cons c cs =>
    unfold nextContent at h
    split at h
    · split at h
      · rename_i body left hcut
        simp only [Step.found.injEq] at h
        obtain ⟨-, rfl, rfl⟩ := h
        have := cut?_length hcut
        simp only [List.length_drop, List.length_cons] at this ⊢
        exact ⟨by omega, rfl⟩
      · simp at h
    · split at h
      · rename_i inner left hcut
        simp only [Step.found.injEq] at h
        obtain ⟨-, rfl, rfl⟩ := h
        have := cut?_length hcut
        simp only [List.length_drop, List.length_cons] at this ⊢
        exact ⟨by omega, rfl⟩
      · simp at h
    · simp only [Step.found.injEq] at h
      obtain ⟨-, rfl, rfl⟩ := h
      have := dropWhile_length isTagNameChar cs
      simp only [List.drop_succ_cons, List.drop_zero, List.length_cons]
      exact ⟨by omega, rfl⟩
    · simp only [Step.found.injEq] at h
      obtain ⟨-, rfl, rfl⟩ := h
      have := cut_length (fun cs => (opening? cs).isSome) cs
      simp only [List.length_cons]
      exact ⟨by omega, rfl⟩

theorem attributeValue_length {pos : Nat} {cs rest : List Char} {value : AttributeValue}
    (h : attributeValue pos cs = .ok (value, rest)) : rest.length ≤ cs.length := by
  unfold attributeValue at h
  split at h
  · split at h
    · rename_i body left hcut
      simp only [Except.ok.injEq, Prod.mk.injEq] at h
      obtain ⟨-, rfl⟩ := h
      have := cut?_length hcut
      simp only [List.length_drop, List.length_cons]
      omega
    · simp at h
  · split at h
    · rename_i body left hcut
      simp only [Except.ok.injEq, Prod.mk.injEq] at h
      obtain ⟨-, rfl⟩ := h
      have := cut?_length hcut
      simp only [List.length_drop, List.length_cons]
      omega
    · simp at h
  · split at h
    · simp at h
    · rename_i body left _ hcut
      simp only [Except.ok.injEq, Prod.mk.injEq] at h
      obtain ⟨-, rfl⟩ := h
      have := cut_length (startsWhere fun c => c == '>' || isAsciiBlank c) cs
      rw [hcut] at this
      exact this

theorem nextPart_decreases {opened pos : Nat} {element : String} {cs : List Char} {t : Token}
    {m : Mode} {rest : List Char} (h : nextPart opened element pos cs = .found t m rest) :
    rest.length < cs.length ∧ m.weight ≤ 1 := by
  have hw : ∀ m : Mode, m.weight ≤ 1 := by intro m; cases m <;> simp [Mode.weight]
  refine ⟨?_, hw m⟩
  unfold nextPart at h
  split at h
  · simp at h
  · simp only [Step.found.injEq] at h
    obtain ⟨-, -, rfl⟩ := h
    simp only [List.length_cons]
    omega
  · simp only [Step.found.injEq] at h
    obtain ⟨-, -, rfl⟩ := h
    simp
  · split at h
    · rename_i value left hvalue
      simp only [Step.found.injEq] at h
      obtain ⟨-, -, rfl⟩ := h
      have := attributeValue_length hvalue
      simp only [List.length_cons]
      omega
    · simp at h
  · split at h
    · simp at h
    · rename_i c cs _ _ _ _ name left hne hcut
      simp only [Step.found.injEq] at h
      obtain ⟨-, -, rfl⟩ := h
      have happ := cut_append endsAttributeName (c :: cs)
      rw [hcut] at happ
      cases name with
      | nil => exact (hne rfl).elim
      | cons d ds =>
        have := congrArg List.length happ
        simp only [List.length_append, List.length_cons] at this ⊢
        omega

/-- A step takes a character, or leaves the body of a raw text element. -/
theorem next_decreases {mode m : Mode} {pos : Nat} {cs rest : List Char} {t : Token}
    (h : next mode pos cs = .found t m rest) :
    2 * rest.length + m.weight < 2 * cs.length + mode.weight := by
  cases mode with
  | content =>
    have := nextContent_decreases h
    omega
  | tag opened element =>
    have h' := nextPart_decreases (h : nextInTag opened element pos cs = _)
    have := dropWhile_length isBlank cs
    omega
  | raw opened element =>
    have h' : nextRaw opened element pos cs = _ := h
    unfold nextRaw at h'
    split at h'
    · rename_i body left hcut
      simp only [Step.found.injEq] at h'
      obtain ⟨-, rfl, rfl⟩ := h'
      have := cut?_length hcut
      simp only [Mode.weight]
      omega
    · simp at h'

/-! ## The whole text -/

/-- The tokens of a text, and the fault at which the reading stopped if it did not reach
the end. -/
structure Tokens where
  tokens : List Token
  fault : Option (Fault LexicalCause)

/-- The tokens from `pos` on. -/
def scanFrom (mode : Mode) (pos : Nat) (cs : List Char) : Tokens :=
  match _h : next mode pos cs with
  | .finished => ⟨[], none⟩
  | .failed fault => ⟨[], some fault⟩
  | .found token mode' rest =>
    let after := scanFrom mode' token.span.stop rest
    { after with tokens := token :: after.tokens }
termination_by 2 * cs.length + mode.weight
decreasing_by exact next_decreases _h

/-- The tokens of a text. -/
def scan (cs : List Char) : Tokens := scanFrom .content 0 cs

end TypedTemplate.Markup
