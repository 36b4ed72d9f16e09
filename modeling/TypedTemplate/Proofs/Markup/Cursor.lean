/-
# `TypedTemplate.Proofs.Markup.Cursor` — markup divided into tokens at byte offsets

`Markup.next` hands on the characters that it has not read.  A cursor holds the whole text and
the offset that it has come to; it computes from that offset where a token ends, slices the token
out of the text, and the name, the value or the inside of the tag out of the token.  `Cursor.next`
is `Markup.next` done in this way, with `none` for a slice that is out of range or falls inside a
character.

It never comes to that: wherever the cursor stands between two characters, the slices that it
takes are there, and the step is the one that `Markup.next` takes from the characters that follow
(`Cursor.next_eq`).
-/
import TypedTemplate.Proofs.Markup.Slices
import TypedTemplate.Proofs.Text.Offsets

namespace TypedTemplate.Markup.Cursor

open Text

/-! ## Between elements -/

/-- A comment: its delimiter is taken first, and its end looked for behind that. -/
def comment (text : List Char) (pos : Nat) : Option Step := do
  let opener ← piece? text pos (pos + 4)
  match find? endsComment opener.rest with
  | none => return .failed ⟨.unterminatedComment, opener.span⟩
  | some close =>
    let token ← piece? text pos (pos + 4 + close + 3)
    return .found (.comment (String.ofList token.chars) token.span) .content token.rest

/-- An end tag; what is in it stands between `</` and the last character. -/
def closeTag (text : List Char) (pos : Nat) : Option Step := do
  let rest ← dropBytes? pos text
  match find? (startsWith '>') rest with
  | none => return .failed ⟨.unterminatedEndTag, ⟨pos, 2⟩⟩
  | some close =>
    let token ← piece? text pos (pos + close + 1)
    let inner ← between? token.chars 2 (size token.chars - 1)
    return .found (.closeTag (String.ofList inner) token.span) .content token.rest

/-- The beginning of a start tag; the name goes to the end of the text if nothing ends it. -/
def openTag (text : List Char) (pos : Nat) : Option Step := do
  let rest ← dropBytes? pos text
  let behind ← dropBytes? 1 rest
  let length := (find? (startsWhere fun c => !isTagNameChar c) behind).getD (size rest - 1)
  let token ← piece? text pos (pos + 1 + length)
  let name ← dropBytes? 1 token.chars
  return .found (.openTag (String.ofList name) token.span) (.tag pos (String.ofList name))
    token.rest

/-- Character data, up to the first `<` but the one that it begins with, if it does, that begins
something else. -/
def characterData (text : List Char) (pos : Nat) : Option Step := do
  let rest ← dropBytes? pos text
  let next ← ((places (startsWith '<') rest).filter (0 < ·)).findM? fun i =>
    (dropBytes? i rest).map opens
  let token ← piece? text pos (pos + next.getD (size rest))
  return .found (.text (String.ofList token.chars) token.span) .content token.rest

/-- The next token between elements. -/
def nextContent (text : List Char) (pos : Nat) : Option Step := do
  let rest ← dropBytes? pos text
  match opening? rest with
  | some .comment => comment text pos
  | some .closeTag => closeTag text pos
  | some .openTag => openTag text pos
  | none => if rest.isEmpty then return .finished else characterData text pos

/-! ## Inside a start tag -/

/-- The length of a value with its quotes, where the closing one is looked for behind the other. -/
def quotedLength (quote : Char) (value : List Char) : Option (Except LexicalCause Nat) := do
  let inner ← dropBytes? 1 value
  match find? (startsWith quote) inner with
  | some close => return .ok (close + 2)
  | none => return .error .unterminatedValue

/-- The length of a value as it is written. -/
def valueLength (value : List Char) : Option (Except LexicalCause Nat) :=
  match value with
  | '"' :: _ => quotedLength '"' value
  | '\'' :: _ => quotedLength '\'' value
  | _ =>
    let length := (find? (startsWhere endsUnquoted) value).getD (size value)
    some (if length = 0 then .error .missingValue else .ok length)

/-- The value without the `=` and without its quotes, which are told by its first character. -/
def splitValue (token : Piece) : Option AttributeValue := do
  let raw ← dropBytes? 1 token.chars
  let first ← raw[0]?
  let offset := token.span.start + 1
  if first = '"' then
    let inner ← between? raw 1 (size raw - 1)
    return ⟨String.ofList inner, .double, .ofChars (offset + 1) inner⟩
  else if first = '\'' then
    let inner ← between? raw 1 (size raw - 1)
    return ⟨String.ofList inner, .single, .ofChars (offset + 1) inner⟩
  else
    return ⟨String.ofList raw, .unquoted, .ofChars offset raw⟩

/-- A value; `value` is what comes after the `=`. -/
def valuePart (opened : Nat) (element : String) (text : List Char) (pos : Nat)
    (value : List Char) : Option Step := do
  match ← valueLength value with
  | .error cause => return .failed ⟨cause, ⟨pos, 1⟩⟩
  | .ok length =>
    let token ← piece? text pos (pos + 1 + length)
    let value ← splitValue token
    return .found (.attributeValue value token.span) (.tag opened element) token.rest

/-- The name of an attribute, which begins with `c`. -/
def namePart (opened : Nat) (element : String) (text : List Char) (pos : Nat) (c : Char)
    (rest : List Char) : Option Step := do
  let next ← (places (fun _ => true) rest).findM? fun i => (dropBytes? i rest).map endsAttributeName
  match next.getD (size rest) with
  | 0 => return .failed ⟨.unexpectedCharacter, ⟨pos, c.utf8Size⟩⟩
  | length =>
    let token ← piece? text pos (pos + length)
    return .found (.attributeName (String.ofList token.chars) token.span) (.tag opened element)
      token.rest

/-- The next token inside a start tag, at a place that is not blank. -/
def nextPart (opened : Nat) (element : String) (text : List Char) (pos : Nat) : Option Step := do
  let rest ← dropBytes? pos text
  match rest with
  | [] => return .failed ⟨.unterminatedStartTag, ⟨opened, 1⟩⟩
  | '/' :: '>' :: _ =>
    let token ← piece? text pos (pos + 2)
    return .found (.tagSelfClose token.span) .content token.rest
  | '>' :: _ =>
    let token ← piece? text pos (pos + 1)
    return .found (.tagEnd token.span)
      (if isRawText element then .raw opened element else .content) token.rest
  | '=' :: value => valuePart opened element text pos value
  | c :: _ => namePart opened element text pos c rest

/-- The next token inside a start tag; the blank space before it is the difference of two lengths. -/
def nextInTag (opened : Nat) (element : String) (text : List Char) (pos : Nat) : Option Step := do
  let rest ← dropBytes? pos text
  nextPart opened element text (pos + (size rest - size (rest.dropWhile isBlank)))

/-! ## The body of a raw text element -/

/-- The two characters that an end tag begins with. -/
def startsEndTag : List Char → Bool
  | '<' :: '/' :: _ => true
  | _ => false

/-- The characters after `</` are the name of the element and the end of a name.  There may be
fewer of them than the name has, or the name may end inside one. -/
def namesElement (name behind : List Char) : Option Bool :=
  match takeBytes? (size name) behind with
  | none => some false
  | some word =>
    if word.map Char.toLower = name then (dropBytes? (size name) behind).map (startsWhere endsUnquoted)
    else some false

/-- The body of a raw text element. -/
def nextRaw (opened : Nat) (element : String) (text : List Char) (pos : Nat) : Option Step := do
  let rest ← dropBytes? pos text
  let next ← (places startsEndTag rest).findM? fun i => do
    namesElement element.toList (← dropBytes? (i + 2) rest)
  match next with
  | some length =>
    let token ← piece? text pos (pos + length)
    return .found (.rawText (String.ofList token.chars) token.span) .content token.rest
  | none => return .failed ⟨.unclosedRawText element, ⟨opened, 1⟩⟩

/-- The next token. -/
def next (mode : Mode) (text : List Char) (pos : Nat) : Option Step :=
  match mode with
  | .content => nextContent text pos
  | .tag opened element => nextInTag opened element text pos
  | .raw opened element => nextRaw opened element text pos

/-! ## A cursor takes the step that the characters take -/

variable {text cs : List Char} {pos opened : Nat} {element : String}

theorem comment_eq (h : dropBytes? pos text = some cs) (hopening : opening? cs = some .comment) :
    comment text pos = some (Markup.nextContent pos cs) := by
  rw [Markup.nextContent.eq_def, hopening]
  obtain ⟨behind, rfl⟩ := opening?_comment hopening
  have hopener : piece? text pos (pos + 4) =
      some ⟨['<', '!', '-', '-'], ⟨pos, 4⟩, behind⟩ := piece?_eq_some h rfl
  simp only [List.drop_succ_cons, List.drop_zero, List.take_succ_cons, List.take_zero]
  cases hcut : cut? endsComment behind with
  | none => simp [comment, hopener, find?_eq_none hcut]
  | some found =>
      obtain ⟨body, after⟩ := found
      obtain ⟨rfl, -, hends, -⟩ := cut?_eq_some.1 hcut
      obtain ⟨after, rfl⟩ := endsComment_iff.1 hends
      have hsize : size (['<', '!', '-', '-'] ++ body ++ ['-', '-', '>']) = 4 + size body + 3 := by
        rw [size_append, size_append]
        rfl
      have htoken : piece? text pos (pos + 4 + size body + 3) =
          some ⟨['<', '!', '-', '-'] ++ body ++ ['-', '-', '>'],
            .ofChars pos (['<', '!', '-', '-'] ++ body ++ ['-', '-', '>']), after⟩ :=
        piece?_eq_some (by rw [h]; simp) (by rw [hsize]; omega)
      simp [comment, hopener, find?_of_cut? hcut, htoken]

theorem closeTag_eq (h : dropBytes? pos text = some cs) (hopening : opening? cs = some .closeTag) :
    closeTag text pos = some (Markup.nextContent pos cs) := by
  rw [Markup.nextContent.eq_def, hopening]
  obtain ⟨behind, rfl⟩ := opening?_closeTag hopening
  simp only [List.drop_succ_cons, List.drop_zero]
  -- neither of the two characters before the inside is the one that is looked for
  have hfind := find?_cons_of_neg (rfl : startsWith '>' ('<' :: '/' :: behind) = false)
  rw [find?_cons_of_neg (rfl : startsWith '>' ('/' :: behind) = false)] at hfind
  cases hcut : cut? (startsWith '>') behind with
  | none =>
      rw [find?_eq_none hcut] at hfind
      simp [closeTag, h, hfind]
  | some found =>
      obtain ⟨inner, after⟩ := found
      obtain ⟨after, rfl, rfl, -⟩ := cut?_startsWith.1 hcut
      have hless : Char.utf8Size '<' = 1 := rfl
      have hslash : Char.utf8Size '/' = 1 := rfl
      have hsize : size (['<', '/'] ++ inner ++ ['>']) = size inner + 3 := by
        have hcloser : size ['>'] = 1 := rfl
        rw [size_append, hcloser]
        show 1 + (1 + size inner) + 1 = _
        omega
      have htoken : piece? text pos (pos + (1 + (1 + size inner)) + 1) =
          some ⟨['<', '/'] ++ inner ++ ['>'], .ofChars pos (['<', '/'] ++ inner ++ ['>']), after⟩ :=
        piece?_eq_some (by rw [h]; simp) (by rw [hsize]; omega)
      have hinner : between? (['<', '/'] ++ inner ++ ['>']) 2 (size inner + 3 - 1) = some inner :=
        between?_eq_some.2 ⟨['<', '/'], ['>'], rfl, rfl, by show _ = 2 + size inner; omega⟩
      rw [find?_of_cut? hcut] at hfind
      simp only [closeTag, h, hfind, hless, hslash, htoken, hsize, hinner, Span.ofChars,
        Option.map_some, Option.bind_eq_bind, Option.bind_some, Option.pure_def,
        List.drop_succ_cons, List.drop_zero]

theorem openTag_eq (h : dropBytes? pos text = some cs) (hopening : opening? cs = some .openTag) :
    openTag text pos = some (Markup.nextContent pos cs) := by
  rw [Markup.nextContent.eq_def, hopening]
  obtain ⟨c, behind, rfl, -⟩ := opening?_openTag.1 hopening
  simp only [List.drop_succ_cons, List.drop_zero]
  generalize c :: behind = behind at h ⊢
  have hless : Char.utf8Size '<' = 1 := rfl
  have hbehind : dropBytes? 1 ('<' :: behind) = some behind := dropBytes?_append ['<'] behind
  have hlength := find?_not_getD isTagNameChar behind
  have hsize : size ('<' :: behind) - 1 = size behind := by rw [size_cons, hless]; omega
  have htoken : piece? text pos (pos + 1 + size (behind.takeWhile isTagNameChar)) =
      some ⟨'<' :: behind.takeWhile isTagNameChar,
        .ofChars pos ('<' :: behind.takeWhile isTagNameChar), behind.dropWhile isTagNameChar⟩ := by
    refine piece?_eq_some ?_ (by rw [size_cons, hless]; omega)
    rw [h, List.cons_append, List.takeWhile_append_dropWhile]
  have hname : dropBytes? 1 ('<' :: behind.takeWhile isTagNameChar) =
      some (behind.takeWhile isTagNameChar) := dropBytes?_append ['<'] _
  simp [openTag, h, hbehind, hlength, htoken, hname, Span.ofChars, hless, Nat.add_comm]

theorem characterData_eq (h : dropBytes? pos text = some cs) (hopening : opening? cs = none)
    (hne : cs ≠ []) : characterData text pos = some (Markup.nextContent pos cs) := by
  rw [Markup.nextContent.eq_def, hopening]
  obtain ⟨c, cs, rfl⟩ := List.exists_cons_of_ne_nil hne
  -- what opens begins with the character that the places are those of
  have hopens : (fun rest => startsWith '<' rest && opens rest) = opens := by
    funext rest
    cases hrest : opens rest with
    | false => exact Bool.and_false _
    | true =>
        rw [opens] at hrest
        obtain ⟨opening, hopening⟩ := Option.isSome_iff_exists.1 hrest
        have hless : startsWith '<' rest = true := by
          cases opening with
          | comment => obtain ⟨_, rfl⟩ := opening?_comment hopening; rfl
          | closeTag => obtain ⟨_, rfl⟩ := opening?_closeTag hopening; rfl
          | openTag => obtain ⟨_, _, rfl, -⟩ := opening?_openTag.1 hopening; rfl
        rw [hless]
        rfl
  have hnext := findM?_slices (q := opens) (p := startsWith '<')
    (dropBytes?_append [c] cs : dropBytes? (size [c]) (c :: cs) = some cs)
  have hone : size [c] = c.utf8Size := Nat.add_zero _
  rw [hopens, hone, ← filter_places] at hnext
  cases hcut : cut opens cs with
  | mk more rest =>
      have hlength : ((find? opens cs).map fun i => c.utf8Size + i).getD (size (c :: cs)) =
          size (c :: more) := by
        have hmore := find?_getD opens cs
        rw [hcut] at hmore
        rw [size_cons, size_cons, ← hmore]
        cases find? opens cs <;> rfl
      have htoken : piece? text pos (pos + size (c :: more)) =
          some ⟨c :: more, .ofChars pos (c :: more), rest⟩ := by
        refine piece?_eq_some ?_ rfl
        rw [h, List.cons_append, (cut_eq.1 hcut).1]
      have hstep : characterData text pos = some (.found (.text (String.ofList (c :: more))
          (.ofChars pos (c :: more))) .content rest) := by
        simp only [List.singleton_append] at hnext
        simp only [characterData, h, hnext, hlength, htoken, Option.bind_eq_bind, Option.bind_some,
          Option.pure_def]
      have hread : cut (fun cs => (opening? cs).isSome) cs = (more, rest) := hcut
      rw [hstep]
      simp only [hread]

theorem nextContent_eq (h : dropBytes? pos text = some cs) :
    nextContent text pos = some (Markup.nextContent pos cs) := by
  rw [nextContent, h]
  show (match opening? cs with
    | some .comment => comment text pos
    | some .closeTag => closeTag text pos
    | some .openTag => openTag text pos
    | none => if cs.isEmpty then some .finished else characterData text pos) = _
  split
  · exact comment_eq h ‹_›
  · exact closeTag_eq h ‹_›
  · exact openTag_eq h ‹_›
  · rename_i hopening
    cases cs with
    | nil => rfl
    | cons c cs => exact characterData_eq h hopening (List.cons_ne_nil c cs)

/-! ### In a start tag -/

theorem chars_double (body : List Char) (span : Span) :
    AttributeValue.chars ⟨String.ofList body, .double, span⟩ = '"' :: (body ++ ['"']) := by
  simp [AttributeValue.chars, Quote.mark]

theorem chars_single (body : List Char) (span : Span) :
    AttributeValue.chars ⟨String.ofList body, .single, span⟩ = '\'' :: (body ++ ['\'']) := by
  simp [AttributeValue.chars, Quote.mark]

theorem chars_unquoted (body : List Char) (span : Span) :
    AttributeValue.chars ⟨String.ofList body, .unquoted, span⟩ = body := by
  simp [AttributeValue.chars, Quote.mark]

/-- A quoted value is as long as it is written, and splits into what it is read as. -/
theorem quotedLength_eq {quote : Char} (hsize : quote.utf8Size = 1) (behind : List Char) :
    quotedLength quote (quote :: behind) = some (match cut? (startsWith quote) behind with
      | some (body, _) => .ok (size (quote :: (body ++ [quote])))
      | none => .error .unterminatedValue) := by
  have hinner : dropBytes? 1 (quote :: behind) = some behind := by
    rw [← hsize, ← Nat.add_zero quote.utf8Size]
    exact dropBytes?_append [quote] behind
  rw [quotedLength, hinner]
  cases hcut : cut? (startsWith quote) behind with
  | none => simp [find?_eq_none hcut]
  | some found => simp [find?_of_cut? hcut, hsize]; omega

theorem valueLength_of_ok {v : AttributeValue} {rest : List Char}
    (h : attributeValue (pos + 1) cs = .ok (v, rest)) :
    valueLength cs = some (.ok (size v.chars)) := by
  cases attributeValue_eq_ok.1 h with
  | @double body rest hbody =>
      rw [valueLength, quotedLength_eq rfl, cut?_startsWith.2 ⟨rest, rfl, rfl, hbody⟩, chars_double]
  | @single body rest hbody =>
      rw [valueLength, quotedLength_eq rfl, cut?_startsWith.2 ⟨rest, rfl, rfl, hbody⟩, chars_single]
  | @unquoted c body rest hdouble hsingle hbody hrest =>
      have hcut : cut (startsWhere endsUnquoted) (c :: (body ++ rest)) = (c :: body, rest) :=
        cut_eq.2 ⟨rfl, hrest, Clear.startsWhere.2 hbody⟩
      have hne : size (c :: body) ≠ 0 := fun hzero => List.cons_ne_nil c body (size_eq_zero.1 hzero)
      unfold valueLength
      split
      · rename_i heq
        exact (hdouble (List.cons.inj heq).1).elim
      · rename_i heq
        exact (hsingle (List.cons.inj heq).1).elim
      · rw [find?_getD, hcut, chars_unquoted]
        exact congrArg some (if_neg hne)

theorem valueLength_of_error {cause : LexicalCause}
    (h : attributeValue (pos + 1) cs = .error cause) : valueLength cs = some (.error cause) := by
  unfold attributeValue at h
  split at h
  · rename_i behind
    rw [valueLength, quotedLength_eq rfl]
    cases hcut : cut? (startsWith '"') behind with
    | some found =>
        rw [hcut] at h
        cases h
    | none =>
        rw [hcut] at h
        cases h
        rfl
  · rename_i behind
    rw [valueLength, quotedLength_eq rfl]
    cases hcut : cut? (startsWith '\'') behind with
    | some found =>
        rw [hcut] at h
        cases h
    | none =>
        rw [hcut] at h
        cases h
        rfl
  · rename_i hdouble hsingle
    split at h
    · rename_i hcut
      cases h
      unfold valueLength
      split
      · exact (hdouble _ rfl).elim
      · exact (hsingle _ rfl).elim
      · rw [find?_getD]
        show some (if size (cut (startsWhere endsUnquoted) _).1 = 0 then _ else _) = _
        rw [show cut (startsWhere endsUnquoted) _ = _ from hcut]
        rfl
    · cases h

/-- The quotes are told from the characters of the value, and taken off. -/
theorem splitValue_eq {v : AttributeValue} {rest after : List Char}
    (h : ReadsValue (pos + 1) cs v rest) :
    splitValue ⟨'=' :: v.chars, .ofChars pos ('=' :: v.chars), after⟩ = some v := by
  have hraw (raw : List Char) : dropBytes? 1 ('=' :: raw) = some raw := dropBytes?_append ['='] raw
  have hinner (quote : Char) (hsize : quote.utf8Size = 1) (body : List Char) :
      between? (quote :: (body ++ [quote])) 1 (size (quote :: (body ++ [quote])) - 1) =
        some body := by
    refine between?_eq_some.2 ⟨[quote], [quote], rfl, by simp [hsize], ?_⟩
    simp [hsize]
    omega
  cases h with
  | double =>
      simp only [splitValue, chars_double, hraw, hinner '"' rfl, Option.bind_eq_bind,
        Option.bind_some, List.getElem?_cons_zero, if_true, Option.pure_def, Span.ofChars]
  | single =>
      have hne : ¬ '\'' = '"' := by decide
      simp only [splitValue, chars_single, hraw, hinner '\'' rfl, Option.bind_eq_bind,
        Option.bind_some, List.getElem?_cons_zero, if_neg hne, if_true, Option.pure_def, Span.ofChars]
  | unquoted hdouble hsingle =>
      simp only [splitValue, chars_unquoted, hraw, Option.bind_eq_bind, Option.bind_some,
        List.getElem?_cons_zero, if_neg hdouble, if_neg hsingle, Option.pure_def, Span.ofChars]

theorem valuePart_eq (h : dropBytes? pos text = some ('=' :: cs)) :
    valuePart opened element text pos cs = some (Markup.nextPart opened element pos ('=' :: cs)) := by
  rw [Markup.nextPart]
  cases hvalue : attributeValue (pos + 1) cs with
  | error cause => simp [valuePart, valueLength_of_error hvalue]
  | ok found =>
      obtain ⟨v, rest⟩ := found
      have hreads := attributeValue_eq_ok.1 hvalue
      obtain ⟨rfl, hwritten⟩ := hreads.covers
      have hequals : Char.utf8Size '=' = 1 := rfl
      have htoken : piece? text pos (pos + 1 + size v.chars) =
          some ⟨'=' :: v.chars, .ofChars pos ('=' :: v.chars), rest⟩ :=
        piece?_eq_some h (by rw [size_cons, hequals, Nat.add_assoc])
      simp only [valuePart, valueLength_of_ok hvalue, htoken, splitValue_eq hreads, hwritten,
        Option.bind_eq_bind, Option.bind_some, Option.pure_def]
      rfl

theorem namePart_eq {c : Char} (h : dropBytes? pos text = some (c :: cs)) :
    namePart opened element text pos c (c :: cs) =
      some (match cut endsAttributeName (c :: cs) with
        | ([], _) => .failed ⟨.unexpectedCharacter, ⟨pos, c.utf8Size⟩⟩
        | (name, rest) => .found (.attributeName (String.ofList name) (.ofChars pos name))
            (.tag opened element) rest) := by
  have hnext := findM?_slices (q := endsAttributeName) (p := fun _ => true) (dropBytes?_zero (c :: cs))
  simp only [Bool.true_and, Nat.zero_add, Option.map_id_fun', id_eq] at hnext
  have hlength := find?_getD endsAttributeName (c :: cs)
  have hwhole := cut_append endsAttributeName (c :: cs)
  simp only [namePart, places, hnext, Option.bind_eq_bind, Option.bind_some, hlength]
  generalize cut endsAttributeName (c :: cs) = found at hwhole ⊢
  obtain ⟨name, rest⟩ := found
  cases name with
  | nil => rfl
  | cons d name =>
      have htoken : piece? text pos (pos + size (d :: name)) =
          some ⟨d :: name, .ofChars pos (d :: name), rest⟩ :=
        piece?_eq_some (by rw [h, ← hwhole]) rfl
      split
      · rename_i hzero
        exact (List.cons_ne_nil d name (size_eq_zero.1 hzero)).elim
      · rw [htoken]
        rfl

theorem nextPart_eq (h : dropBytes? pos text = some cs) :
    nextPart opened element text pos = some (Markup.nextPart opened element pos cs) := by
  rw [nextPart, h]
  simp only [Option.bind_eq_bind, Option.bind_some]
  split
  · rfl
  · rename_i rest
    have htoken : piece? text pos (pos + 2) = some ⟨['/', '>'], ⟨pos, 2⟩, rest⟩ :=
      piece?_eq_some h rfl
    rw [htoken]
    rfl
  · rename_i rest
    have htoken : piece? text pos (pos + 1) = some ⟨['>'], ⟨pos, 1⟩, rest⟩ := piece?_eq_some h rfl
    rw [htoken]
    rfl
  · exact valuePart_eq h
  · rename_i c rest hslash hgreater hequals
    have hnext := Markup.nextPart.eq_5 opened element pos c rest hslash hgreater hequals
    exact (namePart_eq h).trans (congrArg some hnext.symm)

theorem nextInTag_eq (h : dropBytes? pos text = some cs) :
    nextInTag opened element text pos = some (Markup.nextInTag opened element pos cs) := by
  have hblank : size cs - size (cs.dropWhile isBlank) = size (cs.takeWhile isBlank) := by
    have happend := congrArg size (List.takeWhile_append_dropWhile (p := isBlank) (l := cs))
    rw [size_append] at happend
    omega
  have hrest := dropBytes?_dropWhile h isBlank
  rw [nextInTag, h, Markup.nextInTag, ← nextPart_eq hrest, ← hblank]
  rfl

/-! ### In the body of a raw text element -/

theorem utf8Size_toLower (c : Char) : c.toLower.utf8Size = c.utf8Size := by
  unfold Char.toLower
  split
  · rename_i h
    have hle : c.toNat ≤ 90 := h.2
    rw [utf8Size_eq_one (show c.toNat ≤ 127 by omega)]
    refine utf8Size_eq_one (show (c.val + 32).toNat ≤ 127 from ?_)
    rw [UInt32.toNat_add]
    exact Nat.le_trans (Nat.mod_le _ _) (show c.toNat + 32 ≤ 127 by omega)
  · rfl

theorem size_map_toLower (cs : List Char) : size (cs.map Char.toLower) = size cs := by
  induction cs with
  | nil => rfl
  | cons c cs ih => rw [List.map_cons, size_cons, size_cons, utf8Size_toLower, ih]

/-- A name has as many bytes in capitals as without, so it does not matter whether characters or
bytes are counted. -/
theorem namesElement_eq (name behind : List Char) :
    namesElement name behind = some ((behind.take name.length).map Char.toLower == name &&
      startsWhere endsUnquoted (behind.drop name.length)) := by
  have htaken (h : (behind.take name.length).map Char.toLower = name) :
      takeBytes? (size name) behind = some (behind.take name.length) := by
    refine takeBytes?_eq_some.2 ⟨behind.drop name.length, (List.take_append_drop _ _).symm, ?_⟩
    rw [← size_map_toLower, h]
  rw [namesElement]
  cases htake : takeBytes? (size name) behind with
  | none =>
      have hne : ((behind.take name.length).map Char.toLower == name) = false :=
        beq_eq_false_iff_ne.2 fun h => by
          rw [htaken h] at htake
          cases htake
      rw [hne]
      rfl
  | some word =>
      obtain ⟨after, rfl, hsize⟩ := takeBytes?_eq_some.1 htake
      by_cases hword : word.map Char.toLower = name
      · have hlength : name.length = word.length := by rw [← hword, List.length_map]
        have hafter : dropBytes? (size name) (word ++ after) = some after := by
          rw [← hsize]
          exact dropBytes?_append word after
        simp [hword, hafter, hlength]
      · have hne : (((word ++ after).take name.length).map Char.toLower == name) = false :=
          beq_eq_false_iff_ne.2 fun h => by
            have hsame := Option.some.inj (htake.symm.trans (htaken h))
            exact hword (hsame ▸ h)
        rw [hne]
        exact if_neg hword

/-- The end of the body is looked for where `</` is. -/
theorem findM?_endsRawText (name cs : List Char) :
    (places startsEndTag cs).findM? (fun i => (dropBytes? (i + 2) cs).bind (namesElement name)) =
      some (find? (endsRawText name) cs) := by
  have hends : (fun rest => startsEndTag rest && endsRawText name rest) = endsRawText name := by
    funext rest
    cases hstarts : startsEndTag rest with
    | true => rfl
    | false =>
        unfold endsRawText
        split
        · cases hstarts
        · rfl
  have htrial : ∀ before rest, cs = before ++ rest → startsEndTag rest = true →
      (dropBytes? (0 + size before + 2) cs).bind (namesElement name) =
        some (endsRawText name rest) := by
    rintro before rest rfl hstarts
    unfold startsEndTag at hstarts
    split at hstarts
    · rename_i behind
      have hbehind : dropBytes? 2 ('<' :: '/' :: behind) = some behind :=
        dropBytes?_append ['<', '/'] behind
      rw [Nat.zero_add, dropBytes?_add (dropBytes?_append before _), hbehind, Option.bind_some,
        namesElement_eq]
      rfl
    · cases hstarts
  have hsearch := findM?_places (n := 0)
    (f := fun i => (dropBytes? (i + 2) cs).bind (namesElement name)) htrial
  simp only [hends, Nat.zero_add, Option.map_id_fun', id_eq] at hsearch
  exact hsearch

theorem nextRaw_eq (h : dropBytes? pos text = some cs) :
    nextRaw opened element text pos = some (Markup.nextRaw opened element pos cs) := by
  rw [nextRaw, h, Markup.nextRaw]
  simp only [Option.bind_eq_bind, Option.bind_some]
  rw [show _ = _ from findM?_endsRawText element.toList cs]
  cases hcut : cut? (endsRawText element.toList) cs with
  | none =>
      rw [find?_eq_none hcut]
      rfl
  | some found =>
      obtain ⟨body, rest⟩ := found
      have htoken : piece? text pos (pos + size body) = some ⟨body, .ofChars pos body, rest⟩ :=
        piece?_eq_some (by rw [h, cut?_append hcut]) rfl
      simp only [find?_of_cut? hcut, htoken, Option.bind_some, Option.pure_def]

/-- Where the cursor stands between two characters it takes the step that the characters after it
take; elsewhere it fails. -/
theorem next_eq (mode : Mode) (text : List Char) (pos : Nat) :
    next mode text pos = (dropBytes? pos text).map (Markup.next mode pos) := by
  cases h : dropBytes? pos text with
  | none => cases mode <;> simp [next, nextContent, nextInTag, nextRaw, h]
  | some cs =>
      cases mode with
      | content => exact nextContent_eq h
      | tag opened element => exact nextInTag_eq h
      | raw opened element => exact nextRaw_eq h

/-- A token ends between two characters, and the cursor goes on there. -/
theorem next_found {mode mode' : Mode} {token : Token} {rest : List Char}
    (h : next mode text pos = some (.found token mode' rest)) : ∃ cs,
      dropBytes? pos text = some cs ∧ Markup.next mode pos cs = .found token mode' rest ∧
        dropBytes? token.span.stop text = some rest := by
  rw [next_eq] at h
  obtain ⟨cs, hcs, hnext⟩ := Option.map_eq_some_iff.1 h
  exact ⟨cs, hcs, hnext, (next_eq_found.1 hnext).goes_on hcs⟩

end TypedTemplate.Markup.Cursor
