/-
# `TypedTemplate.Proofs.Fragment.Cursor` — expressions found in a text at byte offsets

`Interpolation.parts` goes through the characters of a text and hands on those that it has not
come to.  Here the text stays as it is, and an offset says how far it has been divided: where a
`#` and a brace are, where the expression between the braces begins and ends and where the text
goes on is computed from it, and what stands between is sliced out.  `none` is a slice that is
out of range or falls inside a character.

None is, because every offset is the one before it and the size of characters that stand there
(`Cursor.parts_eq`).
-/
import TypedTemplate.Proofs.Fragment.Braces
import TypedTemplate.Proofs.Text.Offsets

namespace TypedTemplate.Interpolation.Cursor

open Text

variable {content cs before rest : List Char} {start found : Nat}

/-- Where something begins there are characters. -/
theorem start_lt_size (hrest : dropBytes? start content = some rest)
    (hfound : find? begins rest = some found) : start < size content := by
  have hsize := size_of_dropBytes? hrest
  have hne : size rest ≠ 0 := by
    intro hzero
    rw [size_eq_zero.1 hzero] at hfound
    cases hfound
  omega

/-- The parts of a text that stands at `pos`, from the offset `start` on. -/
def partsFrom (pos : Nat) (content : List Char) (start : Nat) : Option (List Part) :=
  match _hrest : dropBytes? start content with
  | none => none
  | some rest =>
    match _hfound : find? begins rest with
    | none => some [.plain rest]
    | some found => do
      let opened := start + found
      let plain ← between? content start opened
      let inside ← dropBytes? (opened + 2) content
      match untilBrace .code inside with
      | none => return [.plain plain, .unterminated ⟨pos + opened, 2⟩]
      | some (written, _) =>
        let stop := opened + 2 + size written
        let body ← between? content (opened + 2) stop
        let more ← partsFrom pos content (stop + 1)
        return .plain plain :: .code ⟨pos + (opened + 2), body⟩ :: more
termination_by size content - start
decreasing_by
  have hlt := start_lt_size _hrest _hfound
  omega

/-- The parts of a text that stands at `pos`. -/
def parts (pos : Nat) (content : List Char) : Option (List Part) := partsFrom pos content 0

/-- The last part. -/
theorem partsFrom_last (pos : Nat) (hrest : dropBytes? start content = some rest)
    (hfound : find? begins rest = none) : partsFrom pos content start = some [.plain rest] := by
  rw [partsFrom]
  split
  · rename_i hnone
    cases hnone.symm.trans hrest
  · rename_i hsome
    cases hsome.symm.trans hrest
    split
    · rfl
    · rename_i hother
      cases hother.symm.trans hfound

/-- A part that an expression comes after. -/
theorem partsFrom_found (pos : Nat) (hrest : dropBytes? start content = some rest)
    (hfound : find? begins rest = some found) : partsFrom pos content start = do
      let plain ← between? content start (start + found)
      let inside ← dropBytes? (start + found + 2) content
      match untilBrace .code inside with
      | none => return [.plain plain, .unterminated ⟨pos + (start + found), 2⟩]
      | some (written, _) =>
        let body ← between? content (start + found + 2) (start + found + 2 + size written)
        let more ← partsFrom pos content (start + found + 2 + size written + 1)
        return .plain plain :: .code ⟨pos + (start + found + 2), body⟩ :: more := by
  rw [partsFrom]
  split
  · rename_i hnone
    cases hnone.symm.trans hrest
  · rename_i hsome
    cases hsome.symm.trans hrest
    split
    · rename_i hother
      cases hother.symm.trans hfound
    · rename_i hother
      cases hother.symm.trans hfound
      rfl

/-- What is sliced out before an expression, and what is looked at for the end of it. -/
theorem slices_of_cut? (h : dropBytes? start content = some cs)
    (hcut : cut? begins cs = some (before, rest)) :
    between? content start (start + size before) = some before ∧
      dropBytes? (start + size before + 2) content = some (rest.drop 2) := by
  have hcs : dropBytes? start content = some (before ++ rest) := by rw [h, cut?_append hcut]
  obtain ⟨inside, rfl⟩ := List.isPrefixOf_iff_prefix.1 (cut?_holds hcut)
  refine ⟨between?_of_dropBytes? hcs rfl, ?_⟩
  have hinside := dropBytes?_append (before ++ opener) inside
  rw [List.append_assoc, size_append] at hinside
  rw [Nat.add_assoc, dropBytes?_add hcs]
  exact hinside

/-- Wherever the text has been divided up to, between two characters, the parts that follow are
those of the characters that follow. -/
theorem partsFrom_eq (pos : Nat) (h : dropBytes? start content = some cs) :
    partsFrom pos content start = some (Interpolation.parts (pos + start) cs) := by
  generalize hplace : pos + start = place
  fun_induction Interpolation.parts place cs generalizing start with
  | case1 place cs hcut => exact partsFrom_last pos h (find?_eq_none hcut)
  | case2 place cs before rest hcut opened =>
      rename_i hbody
      have hopened : pos + (start + size before) = opened := by rw [← Nat.add_assoc, hplace]
      obtain ⟨hplain, hinside⟩ := slices_of_cut? h hcut
      rw [partsFrom_found pos h (find?_of_cut? hcut)]
      simp only [hplain, hinside, hbody, hopened, Option.bind_eq_bind, Option.bind_some,
        Option.pure_def]
  | case3 place cs before rest hcut opened body after hbody =>
      rename_i ih
      have hopened : opened = place + size before := rfl
      obtain ⟨hplain, hinside⟩ := slices_of_cut? h hcut
      obtain ⟨hwritten, -⟩ := untilBrace_eq_some.1 hbody
      have htaken := between?_of_dropBytes? (hinside.trans (congrArg some hwritten)) rfl
      have hbrace : dropBytes? (start + size before + 2 + size body) content =
          some ('\x7d' :: after) := by
        rw [dropBytes?_add hinside, hwritten]
        exact dropBytes?_append body _
      have hafter : dropBytes? (start + size before + 2 + size body + 1) content = some after := by
        rw [dropBytes?_add hbrace]
        exact dropBytes?_append ['\x7d'] after
      have hmore := ih hafter (by omega)
      have hinner : pos + (start + size before + 2) = opened + 2 := by omega
      rw [partsFrom_found pos h (find?_of_cut? hcut)]
      simp only [hplain, hinside, hbody, htaken, hmore, hinner, Option.bind_eq_bind,
        Option.bind_some, Option.pure_def]

/-- No slice of the text is out of range, and the parts are the same. -/
theorem parts_eq (pos : Nat) (content : List Char) :
    parts pos content = some (Interpolation.parts pos content) :=
  partsFrom_eq pos (dropBytes?_zero content)

end TypedTemplate.Interpolation.Cursor
