/-
# `TypedTemplate.Proofs.Fragment.Pieces` — the normal form of fragments writes what the pieces write

Joining neighbouring texts, leaving out empty ones and unwrapping a sequence of one are
invisible: `ofPieces` writes what its pieces write one after another.  The pieces of
static markup write the markup.
-/
import TypedTemplate.Proofs.Render.Written
import TypedTemplate.Fragment.Compile

namespace TypedTemplate.Fragment

open Markup

theorem writtenAll_textPiece (content : String) (s : Stack) :
    writtenAll (textPiece content) s = .ofText content := by
  rw [textPiece]
  split
  · rename_i h
    rw [String.isEmpty_iff.1 h]
    rfl
  · simp [writtenAll, written]

/-- A piece that is not text ends the text before it. -/
theorem writtenAll_joinText_other {s : Stack} {f : Fragment} {fs : List Fragment} {pending : String}
    (h : joinText pending (f :: fs) = textPiece pending ++ f :: joinText "" fs)
    (ih : writtenAll (joinText "" fs) s = (Written.ofText "").andThen (writtenAll fs s)) :
    writtenAll (joinText pending (f :: fs)) s =
      (Written.ofText pending).andThen (writtenAll (f :: fs) s) := by
  rw [Written.ofText_empty, Written.nothing_andThen] at ih
  rw [h, writtenAll_append, writtenAll_textPiece, writtenAll, writtenAll, ih]

/-- Joining texts, with some text that is still to be given out. -/
theorem writtenAll_joinText (s : Stack) : ∀ (fs : List Fragment) (pending : String),
    writtenAll (joinText pending fs) s = (Written.ofText pending).andThen (writtenAll fs s)
  | [], pending => by simp [joinText, writtenAll_textPiece, writtenAll]
  | .static content :: fs, pending => by
      rw [joinText, writtenAll_joinText s fs, Written.ofText_append, Written.andThen_assoc]
      rfl
  | .interpolation _ _ :: fs, _ => writtenAll_joinText_other rfl (writtenAll_joinText s fs "")
  | .attribute _ _ _ _ :: fs, _ => writtenAll_joinText_other rfl (writtenAll_joinText s fs "")
  | .sequence _ :: fs, _ => writtenAll_joinText_other rfl (writtenAll_joinText s fs "")
  | .loop _ _ :: fs, _ => writtenAll_joinText_other rfl (writtenAll_joinText s fs "")
  | .conditional _ _ :: fs, _ => writtenAll_joinText_other rfl (writtenAll_joinText s fs "")

/-- The normal form of some pieces writes what they write. -/
theorem written_ofPieces (fs : List Fragment) (s : Stack) :
    (ofPieces fs).written s = writtenAll fs s := by
  have h := writtenAll_joinText s fs ""
  rw [Written.ofText_empty, Written.nothing_andThen] at h
  rw [← h]
  rw [ofPieces]
  split
  · rename_i only heq
    simp [heq, writtenAll]
  · rfl

/-- Static pieces write their marks. -/
theorem writtenAll_staticPieces (marks : List Mark) (s : Stack) :
    writtenAll (Compiler.staticPieces marks) s =
      .ofText (String.join (marks.map Mark.write)) := by
  induction marks with
  | nil => rfl
  | cons mark marks ih =>
      simp only [Compiler.staticPieces] at ih
      simp only [Compiler.staticPieces, List.map_cons, writtenAll, ih, written,
        String.join_cons, Written.ofText_append]

end TypedTemplate.Fragment
