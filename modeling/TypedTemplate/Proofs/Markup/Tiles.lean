/-
# `TypedTemplate.Proofs.Markup.Tiles` — tokens tile the text, and reading it ends

A token is a tile of the text: it stands where the one before it ended, and only the parts of
a start tag may have blank space before them (`Tile`).  A tile has characters, unless it is the
body of a raw text element that has none (`Reads.tile`).  So the text is its tiles and the
gaps before them, put together (`ReadsTo.tiles`).

Reading ends because each call takes a character.  An empty body takes none; but it is asked
for behind a start tag only, and the `<` of the tag pays for it: inside a start tag and before
a body the reader has one character in hand (`Mode.credit`).  So a text is asked for tokens at
most as often as it has characters, and once more for its end (`ReadsTo.advances`,
`Builder.readWithin_eq`).
-/
import Mathlib.Algebra.Ring.Nat
import Mathlib.Data.List.Forall2
import TypedTemplate.Proofs.Markup.Assembly

namespace TypedTemplate.Markup

open Text

/-- Some characters may be passed over before a token. -/
structure Token.Follows (token : Token) (gap : List Char) : Prop where
  blank : ∀ c ∈ gap, isBlank c = true
  /-- There are none but before the part of a start tag. -/
  adjacent : token.isTagPart = false → gap = []

/-- A token read at `pos`, and the gap before it. -/
structure Tile (pos : Nat) (gap : List Char) (token : Token) : Prop where
  follows : token.Follows gap
  /-- The token has the span of its characters, which stand behind the gap. -/
  span : token.span = .ofChars (pos + size gap) token.chars
  /-- It has some. -/
  positive : token.isEmptyBody = false → 0 < token.span.length

/-- The reader has a character in hand. -/
def Mode.credit : Mode → Nat
  | .content => 0
  | .tag _ _ | .raw _ _ => 1

/-- How often a token is asked for: a comment at its opener, and once more for its end. -/
def Token.calls : Token → Nat
  | .comment _ _ => 2
  | _ => 1

variable {config : Config} {mode mode' : Mode} {pos pos' : Nat} {cs rest : List Char}
  {token : Token} {tokens : List Token}

/-! ## One token -/

/-- What is not part of a start tag stands right here. -/
theorem Reads.adjacent (h : Reads pos mode cs token mode' rest) (hpart : token.isTagPart = false) :
    cs = token.chars ++ rest := by
  cases h with
  | comment | closeTag | openTag | text | rawText => simp [Token.chars]
  | tagSelfClose | tagEnd | attributeValue | attributeName => cases hpart

theorem Reads.chars_ne_nil (h : Reads pos mode cs token mode' rest)
    (hbody : token.isEmptyBody = false) : token.chars ≠ [] := by
  cases h with
  | comment | closeTag | openTag | text | tagSelfClose | tagEnd | attributeValue | attributeName =>
      simp [Token.chars]
  | @rawText _ _ body rest hclear hrest =>
      rintro hnil
      cases body with
      | nil => cases hbody
      | cons c body => simp [Token.chars] at hnil

/-- What a step finds is a tile. -/
theorem Reads.tile (h : Reads pos mode cs token mode' rest) :
    ∃ gap, Tile pos gap token ∧ cs = gap ++ (token.chars ++ rest) := by
  obtain ⟨gap, hblank, hcs, hspan⟩ := h.covers
  refine ⟨gap, ⟨⟨hblank, fun hpart => ?_⟩, hspan, fun hbody => ?_⟩, hcs⟩
  · exact List.append_left_eq_self.1 (hcs.symm.trans (h.adjacent hpart))
  · rw [hspan]
    exact Nat.pos_of_ne_zero fun hzero => h.chars_ne_nil hbody (size_eq_zero.1 hzero)

theorem Mode.credit_le_one (mode : Mode) : mode.credit ≤ 1 := by
  cases mode <;> simp [Mode.credit]

/-- Each call takes a character of the token, or the one in hand. -/
theorem Reads.calls_le (h : Reads pos mode cs token mode' rest) :
    token.calls + mode'.credit ≤ token.chars.length + mode.credit := by
  cases h with
  | comment | closeTag | openTag | text | tagSelfClose | attributeValue | attributeName | rawText =>
      simp [Token.calls, Token.chars, Mode.credit]
  | tagEnd => exact Nat.add_le_add_left (Mode.credit_le_one _) 1

/-! ## A run of tokens -/

/-- After any number of tokens the reader is where the last of them ended, and has asked at most as
often as there are characters before this place. -/
theorem ReadsTo.advances (h : ReadsTo mode pos cs tokens mode' pos' rest) :
    pos' = (tokens.getLast?.map fun token => token.span.stop).getD pos ∧
      (tokens.map Token.calls).sum + rest.length + mode'.credit ≤ cs.length + mode.credit := by
  induction h with
  | nil => simp
  | @cons mode mode' mode'' pos pos'' cs rest rest' token tokens hread _ ih =>
      obtain ⟨hpos, hcalls⟩ := ih
      refine ⟨?_, ?_⟩
      · rw [hpos, List.getLast?_cons]
        cases tokens.getLast? <;> rfl
      · have hstep := hread.calls_le
        obtain ⟨gap, -, rfl⟩ := hread.tile
        simp only [List.map_cons, List.sum_cons, List.length_append]
        omega

/-- The reader stays between two characters of the text. -/
theorem ReadsTo.goes_on (h : ReadsTo mode pos cs tokens mode' pos' rest) {text : List Char}
    (hcs : dropBytes? pos text = some cs) : dropBytes? pos' text = some rest := by
  induction h with
  | nil => exact hcs
  | cons hread _ ih => exact ih (hread.goes_on hcs)

/-- The characters that some tokens were read from are those of the tokens, with blank space before
the parts of start tags. -/
theorem ReadsTo.tiles (h : ReadsTo mode pos cs tokens mode' pos' rest) : ∃ gaps : List (List Char),
    List.Forall₂ Token.Follows tokens gaps ∧
      cs = (List.zipWith (fun token gap => gap ++ token.chars) tokens gaps).flatten ++ rest := by
  induction h with
  | nil => exact ⟨[], .nil, rfl⟩
  | cons hread _ ih =>
      obtain ⟨gaps, hfollow, hrest⟩ := ih
      obtain ⟨gap, htile, hcs⟩ := hread.tile
      refine ⟨gap :: gaps, .cons htile.follows hfollow, ?_⟩
      rw [hcs, List.zipWith_cons_cons, List.flatten_cons, List.append_assoc, List.append_assoc,
        ← hrest]

/-! ## Reading ends -/

/-- Builds a tree from at most `n` steps of the reader; `none` if it has not come to an end by
then. -/
def Builder.readWithin (config : Config) (b : Builder) (mode : Mode) (pos : Nat) (cs : List Char) :
    Nat → Option (Except CompileError Document)
  | 0 => none
  | n + 1 =>
    match next mode pos cs with
    | .finished => some ((b.finish config).mapError .structural)
    | .failed fault => some (.error (.lexical fault))
    | .found token mode' rest =>
      match b.add config token with
      | .error fault => some (.error (.structural fault))
      | .ok b => b.readWithin config mode' token.span.stop rest n

/-- One step for each character and one for the end are enough. -/
theorem Builder.readWithin_eq (b : Builder) {n : Nat} (hn : cs.length + mode.credit < n) :
    b.readWithin config mode pos cs n =
      some (Assembly.complete config b (scanFrom mode pos cs)) := by
  induction n generalizing b mode pos cs with
  | zero => omega
  | succ n ih =>
      rw [readWithin]
      cases hnext : next mode pos cs with
      | finished =>
          rw [scanFrom, hnext]
          rfl
      | failed fault =>
          rw [scanFrom, hnext]
          rfl
      | found token mode' rest =>
          rw [scanFrom_found hnext, Assembly.complete_cons]
          dsimp only
          cases b.add config token with
          | error fault => rfl
          | ok b' =>
              have hread := next_eq_found.1 hnext
              have hstep := hread.calls_le
              have hcalls : 1 ≤ token.calls := by cases token <;> simp [Token.calls]
              obtain ⟨gap, -, rfl⟩ := hread.tile
              refine ih b' ?_
              simp only [List.length_append] at hn
              omega

/-- Parses a template with at most `n` steps of the reader. -/
def Document.parseWithin (config : Config) (source : Source) (n : Nat) :
    Option (Except Diagnostic Document) :=
  (Builder.readWithin config {} .content 0 source.chars n).map fun result =>
    result.mapError source.diagnose

/-! ## The whole text -/

/-- What holds of a reader that has found `tokens` in a text and is at `pos`. -/
structure Tiled (source : Source) (tokens : List Token) (mode : Mode) (pos : Nat)
    (rest : List Char) : Prop where
  /-- It goes on where the last of them ended. -/
  start : pos = (tokens.getLast?.map fun token => token.span.stop).getD 0
  /-- The characters left are those behind this place. -/
  place : dropBytes? pos source.chars = some rest
  /-- It was called at most as often as there are characters before it. -/
  bounded : (tokens.map Token.calls).sum + rest.length ≤ source.chars.length
  /-- The next token is a tile. -/
  found : ∀ {token : Token} {mode' : Mode} {rest' : List Char},
    next mode pos rest = .found token mode' rest' →
      ∃ gap, Tile pos gap token ∧ rest = gap ++ (token.chars ++ rest')
  /-- The end is met at the end of the text. -/
  finished : next mode pos rest = .finished → rest = [] ∧ pos = size source.chars

theorem ReadsTo.tiled {source : Source}
    (h : ReadsTo .content 0 source.chars tokens mode pos rest) :
    Tiled source tokens mode pos rest := by
  obtain ⟨hstart, hcalls⟩ := h.advances
  have hplace := h.goes_on (dropBytes?_zero source.chars)
  refine ⟨hstart, hplace, ?_, fun hfound => (next_eq_found.1 hfound).tile, fun hfinished => ?_⟩
  · exact (Nat.le_add_right _ mode.credit).trans hcalls
  · obtain ⟨-, rfl⟩ := next_finished hfinished
    exact ⟨rfl, size_of_dropBytes? hplace⟩

/-- Wherever the reader is called, it finds a tile or the end of the text, or fails.  So parsing
ends, and a text that is accepted consists of the tokens that its tree was built from, with blank
space before the parts of start tags. -/
theorem Document.parse_tiled (config : Config) (source : Source) :
    (∀ tokens mode pos rest, ReadsTo .content 0 source.chars tokens mode pos rest →
      Tiled source tokens mode pos rest) ∧
    (∀ n, source.chars.length < n →
      Document.parseWithin config source n = some (Document.parse config source)) ∧
    ∀ document, Document.parse config source = .ok document → ∃ tokens gaps b,
      ReadsTo .content 0 source.chars tokens .content (size source.chars) [] ∧
      Builder.addAll config {} tokens = .ok b ∧ b.finish config = .ok document ∧
      List.Forall₂ Token.Follows tokens gaps ∧
      source.chars = (List.zipWith (fun token gap => gap ++ token.chars) tokens gaps).flatten := by
  refine ⟨fun _ _ _ _ h => h.tiled, fun n hn => ?_, fun document hparse => ?_⟩
  · rw [parseWithin, Builder.readWithin_eq {} hn, Assembly.complete_start]
    rfl
  · have hread : Document.read config source = .ok document := Except.mapError_eq_ok.1 hparse
    obtain ⟨pos, b, hto, hadd, hfinish⟩ := Document.read_tokens hread
    have hend : pos = size source.chars := (hto.tiled.finished rfl).2
    obtain ⟨gaps, hfollow, hchars⟩ := hto.tiles
    rw [List.append_nil] at hchars
    exact ⟨_, gaps, b, hend ▸ hto, hadd, hfinish, hfollow, hchars⟩

namespace Note

/-- An element that is left open, with an attribute behind two spaces. -/
def note : Source := .ofString "note" "<p  é>x"

/-- The theorem at the note: before its attribute, with one step more than it has characters, and
for its tree. -/
theorem parse_tiled_note :
    (∃ rest, ReadsTo .content 0 note.chars [.openTag "p" ⟨0, 2⟩] (.tag 0 "p") 2 rest ∧
      Tiled note [.openTag "p" ⟨0, 2⟩] (.tag 0 "p") 2 rest) ∧
    note.chars.length < 8 ∧
    Document.parseWithin {} note 8 = some (Document.parse {} note) ∧
    ∃ document, Document.parse {} note = .ok document ∧ ∃ tokens gaps,
      List.Forall₂ Token.Follows tokens gaps ∧
      note.chars = (List.zipWith (fun token gap => gap ++ token.chars) tokens gaps).flatten := by
  obtain ⟨htiled, hends, haccepted⟩ := Document.parse_tiled {} note
  have hopen : next .content 0 note.chars =
      .found (.openTag "p" ⟨0, 2⟩) (.tag 0 "p") "  é>x".toList := by rfl
  have hto : ReadsTo .content 0 note.chars [.openTag "p" ⟨0, 2⟩] (.tag 0 "p") 2 _ :=
    .cons (next_eq_found.1 hopen) .nil
  have hlength : note.chars.length < 8 := by decide
  have hparse : (Document.parse {} note).toOption.isSome = true := by decide +kernel
  obtain ⟨document, hdocument⟩ := Option.isSome_iff_exists.1 hparse
  have hdocument := Except.toOption_eq_some.1 hdocument
  obtain ⟨tokens, gaps, b, -, -, -, hfollow, hchars⟩ := haccepted document hdocument
  exact ⟨⟨_, hto, htiled _ _ _ _ hto⟩, hlength, hends 8 hlength, document, hdocument, tokens, gaps,
    hfollow, hchars⟩

end Note

end TypedTemplate.Markup
