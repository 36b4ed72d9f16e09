/-
# `TypedTemplate.Proofs.Text.Entities` — escaped text is read back, and written in slices

An entity is told from the others and from plain text by where it begins, since no `&` is left
as it is; so reading the entities of an escaped text from left to right gives the text
(`unescape_escape`), whether or not the text had entities in it before.

`escapeBytes` is how a writer does it that goes through the bytes: nothing is written before a
special byte comes, and then all characters since the last one are, in one slice.  A slice that
ends before it begins, or between the bytes of a character, is a failure there.  There is none,
because a special byte is always a character by itself (`encodeChar_entity`).
-/
import Mathlib.Tactic.SplitIfs
import TypedTemplate.Proofs.Text.Bytes
import TypedTemplate.Proofs.Text.Escaped
import TypedTemplate.Proofs.Text.Offsets

namespace TypedTemplate.Text

/-! ## Reading back -/

theorem unescape_cons {c : Char} (h : c ≠ '&') (cs : List Char) :
    unescape (c :: cs) = c :: unescape cs := by
  rw [unescape] <;> intros <;> contradiction

/-- What a character is written as is read as that character, whatever comes next. -/
theorem unescape_escapeChar (c : Char) (cs : List Char) :
    unescape (escapeChar c ++ cs) = c :: unescape cs := by
  rw [escapeChar]
  split_ifs with hamp hlt hgt hquot happ
  · rw [hamp]
    rfl
  · rw [hlt]
    rfl
  · rw [hgt]
    rfl
  · rw [hquot]
    rfl
  · rw [happ]
    rfl
  · exact unescape_cons hamp cs

theorem escape_append (cs ds : List Char) : escape (cs ++ ds) = escape cs ++ escape ds :=
  List.flatMap_append

theorem unescape_escape (cs : List Char) : unescape (escape cs) = cs := by
  induction cs with
  | nil => rfl
  | cons c cs ih => rw [escape_cons, unescape_escapeChar, ih]

theorem escape_injective : Function.Injective escape :=
  Function.LeftInverse.injective unescape_escape

/-! ## Writing in slices -/

/-- What a special byte is written as. -/
def entity? (b : UInt8) : Option (List Char) :=
  if b = '&'.toUInt8 then some "&amp;".toList
  else if b = '<'.toUInt8 then some "&lt;".toList
  else if b = '>'.toUInt8 then some "&gt;".toList
  else if b = '"'.toUInt8 then some "&quot;".toList
  else if b = '\''.toUInt8 then some "&#39;".toList
  else none

theorem escapeChar_of_long {c : Char} (h : 127 < c.toNat) : escapeChar c = [c] := by
  have hne (d : Char) (hd : d.toNat < 128) : c ≠ d := by
    rintro rfl
    omega
  rw [escapeChar, if_neg (hne _ (by decide)), if_neg (hne _ (by decide)),
    if_neg (hne _ (by decide)), if_neg (hne _ (by decide)), if_neg (hne _ (by decide))]

theorem entity?_eq_none {b : UInt8} (h : 128 ≤ b.toNat) : entity? b = none := by
  have hne (c : Char) (hc : c.toUInt8.toNat < 128) : b ≠ c.toUInt8 := by
    rintro rfl
    omega
  rw [entity?, if_neg (hne _ (by decide)), if_neg (hne _ (by decide)), if_neg (hne _ (by decide)),
    if_neg (hne _ (by decide)), if_neg (hne _ (by decide))]

/-- The byte of a special character is one by itself, and no other character has such a byte. -/
theorem encodeChar_entity (c : Char) :
    (∃ b entity, String.utf8EncodeChar c = [b] ∧ entity? b = some entity ∧ escapeChar c = entity) ∨
      ((∀ b ∈ String.utf8EncodeChar c, entity? b = none) ∧ escapeChar c = [c]) := by
  rcases encodeChar_cases c with ⟨hshort, hbytes⟩ | ⟨first, rest, hbytes, hlong, hfirst, hrest⟩
  · have htable : ∀ n : Fin 128, escapeChar (Char.ofNat n) =
        (entity? (.ofNat n)).getD [Char.ofNat n] := by decide +kernel
    have hc := htable ⟨c.toNat, by omega⟩
    rw [Char.ofNat_toNat] at hc
    rw [hbytes]
    cases hentity : entity? (.ofNat c.toNat) with
    | none =>
        rw [hentity] at hc
        exact Or.inr ⟨by simpa using hentity, hc⟩
    | some entity =>
        rw [hentity] at hc
        exact Or.inl ⟨_, entity, rfl, hentity, hc⟩
  · refine Or.inr ⟨?_, escapeChar_of_long hlong⟩
    rw [hbytes, List.forall_mem_cons]
    exact ⟨entity?_eq_none (by omega), fun b hb => entity?_eq_none (hrest b hb).1⟩

/-- Writes the bytes from the offset `i` on behind `out`; the characters from the offset `last` on
are still to be written. -/
def escapeFrom (text : List Char) : List UInt8 → (i last : Nat) → List Char → Option (List Char)
  | [], _, last, out => do
    return out ++ (← dropBytes? last text)
  | b :: bs, i, last, out =>
    match entity? b with
    | none => escapeFrom text bs (i + 1) last out
    | some entity => do
      let copied ← between? text last i
      escapeFrom text bs (i + 1) (i + 1) (out ++ copied ++ entity)

/-- Appends `text` to `out` with its special bytes written as entities. -/
def escapeBytes (out text : String) : Option String :=
  (escapeFrom text.toList (bytes text.toList) 0 0 out.toList).map String.ofList

/-- Bytes that are not special only move the place on. -/
theorem escapeFrom_plain {text out : List Char} {bs more : List UInt8} {i last : Nat}
    (h : ∀ b ∈ bs, entity? b = none) :
    escapeFrom text (bs ++ more) i last out = escapeFrom text more (i + bs.length) last out := by
  induction bs generalizing i with
  | nil => rfl
  | cons b bs ih =>
      obtain ⟨hb, hbs⟩ := List.forall_mem_cons.1 h
      have hlength : i + (b :: bs).length = i + 1 + bs.length := by
        rw [List.length_cons]
        omega
      rw [hlength, ← ih hbs, List.cons_append, escapeFrom, hb]

/-- The text is what is written, what waits to be written, and the rest. -/
theorem escapeFrom_eq (rest : List Char) : ∀ done waiting out : List Char,
    escapeFrom (done ++ waiting ++ rest) (bytes rest) (size done + size waiting) (size done) out =
      some (out ++ waiting ++ escape rest) := by
  induction rest with
  | nil =>
      intro done waiting out
      have hwaiting : dropBytes? (size done) (done ++ waiting ++ []) = some waiting := by
        rw [List.append_nil]
        exact dropBytes?_append done waiting
      rw [bytes, List.flatMap_nil, escapeFrom, hwaiting]
      simp [escape]
  | cons c rest ih =>
      intro done waiting out
      rcases encodeChar_entity c with ⟨b, entity, hbytes, hb, hc⟩ | ⟨hplain, hc⟩
      · -- the waiting characters are copied, and none waits afterwards
        have hcopied : between? (done ++ waiting ++ c :: rest) (size done)
            (size done + size waiting) = some waiting :=
          between?_eq_some.2 ⟨done, c :: rest, rfl, rfl, rfl⟩
        have hsize : size done + size waiting + 1 = size (done ++ waiting ++ [c]) := by
          have hc := String.length_utf8EncodeChar c
          rw [hbytes] at hc
          simp only [size_append, size_cons, size_nil, ← hc, List.length_singleton, Nat.add_zero]
        have hnext := ih (done ++ waiting ++ [c]) [] (out ++ waiting ++ entity)
        rw [bytes_cons, hbytes, List.singleton_append, escapeFrom, hb, hcopied, hsize, escape_cons, hc]
        simpa using hnext
      · -- the character waits with the others
        have hnext := ih done (waiting ++ [c]) out
        rw [bytes_cons, escapeFrom_plain hplain, String.length_utf8EncodeChar, escape_cons, hc]
        simpa [Nat.add_assoc] using hnext

/-- Writing in slices never fails, and writes what is written character by character. -/
theorem escapeBytes_eq (out text : String) : escapeBytes out text = some (escapeHtml out text) := by
  have h : escapeFrom text.toList (bytes text.toList) 0 0 out.toList =
      some (out.toList ++ escape text.toList) := by
    simpa using escapeFrom_eq text.toList [] [] out.toList
  rw [escapeBytes, h, Option.map_some, String.ofList_append, String.ofList_toList, escapeHtml]

/-! ## What is appended -/

/-- What is appended delimits nothing, has no `&` but that of an entity, and is read back as the
text; so it is different for different texts.  It is put together from what is appended for the
parts of the text, and written in slices without fail. -/
theorem escapeHtml_reads_back (out text : String) :
    (∃ written, escapeHtml out text = out ++ String.ofList written ∧
      (∀ c ∈ written, isDelimiter c = false) ∧ AmpersandsBegin written ∧
      unescape written = text.toList) ∧
    (∀ other, escapeHtml out text = escapeHtml out other ↔ text = other) ∧
    (∀ more, escapeHtml out (text ++ more) = escapeHtml (escapeHtml out text) more) ∧
    escapeBytes out text = some (escapeHtml out text) := by
  refine ⟨⟨escape text.toList, rfl, ?_, escape_ampersands _, unescape_escape _⟩, ?_, ?_,
    escapeBytes_eq out text⟩
  · intro c hc
    have hnone := List.filter_eq_nil_iff.1 (escape_delimiters text.toList) c hc
    exact eq_false_of_ne_true hnone
  · intro other
    constructor
    · intro h
      have hlists := congrArg String.toList h
      simp only [escapeHtml, String.toList_append, String.toList_ofList] at hlists
      exact String.toList_injective (escape_injective (List.append_cancel_left hlists))
    · rintro rfl
      rfl
  · intro more
    rw [escapeHtml, escapeHtml, escapeHtml, String.toList_append, escape_append, String.ofList_append,
      String.append_assoc]

/-- A text that has an entity in it already, a letter of two bytes between special characters, and
special characters at both ends. -/
example : escapeBytes "<p>" "'&lt;é<\"" = some "<p>&#39;&amp;lt;é&lt;&quot;" := by decide +kernel

end TypedTemplate.Text
