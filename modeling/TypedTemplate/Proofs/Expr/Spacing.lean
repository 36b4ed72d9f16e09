/-
# `TypedTemplate.Proofs.Expr.Spacing` — blank space around the tokens of an expression

The tokens of an expression stand one after the other, each has characters, and what no token
covers is blank (`Tiling`).  How much blank space there is does not matter: more of it may be
put in wherever no token is broken, and the tokens are the same, those behind that place moved
with their characters (`Laid.insert`).

What makes this true is that blank space ends every token that could have gone on: a name and a
number do not reach over it, and a mark and a string end by themselves (`Lexeme.before_blank`).
-/
import TypedTemplate.Proofs.Expr.Layout

namespace TypedTemplate.Expr

open Text

/-- The token with its characters `n` bytes further on. -/
def Token.moved (n : Nat) (t : Token) : Token := ⟨t.kind, ⟨t.span.start + n, t.span.length⟩⟩

theorem Token.moved_stop (n : Nat) (t : Token) : (t.moved n).span.stop = t.span.stop + n :=
  Nat.add_right_comm _ _ _

/-- The place `cut` is not inside the token. -/
def Token.Spares (cut : Nat) (t : Token) : Prop := t.span.stop ≤ cut ∨ cut ≤ t.span.start

/-- The token when `n` bytes are put in at `cut`. -/
def Token.spaced (cut n : Nat) (t : Token) : Token :=
  if t.span.stop ≤ cut then t else t.moved n

theorem Token.spaced_kind (cut n : Nat) (t : Token) : (t.spaced cut n).kind = t.kind := by
  unfold spaced
  split <;> rfl

namespace Laid

variable {pos cut : Nat} {cs left right blanks : List Char} {ts : List Token}

/-- No token is empty. -/
theorem positive (h : Laid pos cs ts) : ∀ t ∈ ts, 0 < t.span.length := by
  induction h with
  | nil => exact List.forall_mem_nil _
  | cons _ hlexeme hspan _ ih =>
      refine List.forall_mem_cons.2 ⟨?_, ih⟩
      rw [hspan]
      exact Nat.pos_of_ne_zero fun hzero => hlexeme.ne_nil (size_eq_zero.1 hzero)

/-- Of two divisions of a text in two, the one whose first part is no longer. -/
theorem split_of_size_le {a b c d : List Char} (h : a ++ b = c ++ d) (hsize : size a ≤ size c) :
    ∃ more, c = a ++ more ∧ b = more ++ d := by
  obtain ⟨more, rfl⟩ := prefix_of_size_le ⟨b, h⟩ ⟨d, rfl⟩ hsize
  rw [List.append_assoc] at h
  exact ⟨more, rfl, List.append_cancel_left h⟩

/-- A character that no token covers is blank. -/
theorem uncovered (h : Laid pos cs ts) {c : Char} (hcs : cs = left ++ c :: right)
    (hcovers : ∀ t ∈ ts, t.span.stop ≤ pos + size left ∨ pos + size left < t.span.start) :
    isBlank c = true := by
  induction h generalizing left with
  | nil hblanks => exact hblanks c (by rw [hcs]; simp)
  | @cons pos blanks taken rest t ts hblanks hlexeme hspan _ ih =>
      obtain ⟨hhead, htail⟩ := List.forall_mem_cons.1 hcovers
      have hstart : t.span.start = pos + size blanks := by rw [hspan]; rfl
      have hstop : t.span.stop = pos + size (blanks ++ taken) := by
        rw [hspan, size_append, ← Nat.add_assoc]
        rfl
      rcases hhead with hbehind | hbefore
      · -- the character is of the rest
        rw [← List.append_assoc] at hcs
        obtain ⟨more, rfl, hrest⟩ := split_of_size_le hcs (by omega)
        refine ih hrest fun u hu => ?_
        have hplace : t.span.stop + size more = pos + size (blanks ++ taken ++ more) := by
          rw [hstop, size_append _ more, Nat.add_assoc]
        rw [hplace]
        exact htail u hu
      · obtain ⟨more, rfl, hmore⟩ := split_of_size_le hcs.symm (by omega)
        rw [size_append] at hstart
        cases more with
        | nil => rw [size_nil] at hstart; omega
        | cons d more =>
            obtain ⟨rfl, -⟩ := List.cons.inj hmore
            exact hblanks c (by simp)

/-- Tokens stand in the same characters wherever these stand. -/
theorem moved (h : Laid pos cs ts) (n : Nat) : Laid (pos + n) cs (ts.map (Token.moved n)) := by
  induction h with
  | nil hblanks => exact .nil hblanks
  | @cons pos blanks taken rest t ts hblanks hlexeme hspan _ ih =>
      refine .cons hblanks hlexeme ?_ (by rw [Token.moved_stop]; exact ih)
      rw [Token.moved, hspan, Span.ofChars, Span.ofChars, Nat.add_right_comm]

/-- Blank space may be put in between any two tokens, before the first and after the last. -/
theorem insert (h : Laid pos cs ts) (hcs : cs = left ++ right) (hcut : cut = pos + size left)
    (hspares : ∀ t ∈ ts, t.Spares cut) (hblanks : ∀ c ∈ blanks, isBlank c = true) :
    Laid pos (left ++ (blanks ++ right)) (ts.map (Token.spaced cut (size blanks))) := by
  induction h generalizing left with
  | nil hall =>
      subst hcs
      refine .nil fun c hc => ?_
      rcases List.mem_append.1 hc with hc | hc
      · exact hall c (List.mem_append_left right hc)
      · rcases List.mem_append.1 hc with hc | hc
        · exact hblanks c hc
        · exact hall c (List.mem_append_right left hc)
  | @cons pos before taken rest t ts hbefore hlexeme hspan hrest ih =>
      obtain ⟨hhead, htail⟩ := List.forall_mem_cons.1 hspares
      have hstart : t.span.start = pos + size before := by rw [hspan]; rfl
      have hstop : t.span.stop = pos + size (before ++ taken) := by
        rw [hspan, size_append, ← Nat.add_assoc]
        rfl
      rcases hhead with hbehind | hahead
      · -- the place is behind the token, which blank space still ends
        rw [← List.append_assoc] at hcs
        obtain ⟨more, rfl, rfl⟩ := split_of_size_le hcs (by omega)
        have hplace : cut = t.span.stop + size more := by
          rw [hcut, hstop, size_append _ more, Nat.add_assoc]
        have hends : Lexeme taken t.kind (more ++ (blanks ++ right)) := by
          cases blanks with
          | nil => exact hlexeme
          | cons c blanks =>
              refine hlexeme.before_blank (List.prefix_append more right) ?_
              rintro _ ⟨⟩
              exact hblanks c List.mem_cons_self
        rw [List.map_cons, Token.spaced, if_pos hbehind, List.append_assoc, List.append_assoc]
        exact .cons hbefore hends hspan (ih rfl hplace htail)
      · -- the place is before the token, which moves with all that come after it
        obtain ⟨more, rfl, rfl⟩ := split_of_size_le hcs.symm (by omega)
        have hlaid : Laid pos (left ++ more ++ (taken ++ rest)) (t :: ts) :=
          .cons hbefore hlexeme hspan hrest
        have hall : ∀ u ∈ t :: ts, u.spaced cut (size blanks) = u.moved (size blanks) := by
          intro u hu
          have hlength := hlaid.positive u hu
          have hplace : cut ≤ u.span.start := by
            rcases List.mem_cons.1 hu with rfl | hu
            · exact hahead
            · exact hahead.trans ((Nat.le_add_right _ _).trans (hrest.ordered.1 u hu))
          exact if_neg (Nat.not_le.2 (Nat.lt_of_le_of_lt hplace (Nat.lt_add_of_pos_right hlength)))
        have hsplit : left ++ (blanks ++ (more ++ (taken ++ rest))) =
            left ++ blanks ++ more ++ (taken ++ rest) := by
          simp only [List.append_assoc]
        rw [List.map_congr_left hall, hsplit, List.map_cons]
        refine .cons ?_ hlexeme ?_ (by rw [Token.moved_stop]; exact hrest.moved (size blanks))
        · intro c hc
          rcases List.mem_append.1 hc with hc | hc
          · rcases List.mem_append.1 hc with hc | hc
            · exact hbefore c (List.mem_append_left more hc)
            · exact hblanks c hc
          · exact hbefore c (List.mem_append_right left hc)
        · rw [Token.moved, hspan]
          simp only [Span.ofChars, size_append, Span.mk.injEq, and_true]
          omega

end Laid

/-- The tokens of an excerpt, with the one for its end, tile it. -/
structure Tiling (e : Excerpt) (ts : List Token) : Prop where
  /-- They begin in the excerpt, -/
  inside : ∀ t ∈ ts, e.offset ≤ t.span.start
  /-- stand one after the other up to the end, -/
  ordered : (ts ++ [Token.stop e]).Pairwise fun a b => a.span.stop ≤ b.span.start
  /-- and have characters. -/
  positive : ∀ t ∈ ts, 0 < t.span.length
  /-- A character that none of them covers is blank. -/
  uncovered : ∀ left c right, e.chars = left ++ c :: right →
    (∀ t ∈ ts, t.span.stop ≤ e.offset + size left ∨ e.offset + size left < t.span.start) →
    isBlank c = true
  /-- None of them stands for the end; the last does, and it is empty and at the end. -/
  ends : (∀ t ∈ ts, t.kind ≠ .stop) ∧ Token.stop e = ⟨.stop, ⟨e.span.stop, 0⟩⟩
  /-- Blank space between them counts for nothing. -/
  spaced : ∀ left right blanks, e.chars = left ++ right → (∀ c ∈ blanks, isBlank c = true) →
    (∀ t ∈ ts, t.Spares (e.offset + size left)) →
    ∃ us, tokens ⟨e.offset, left ++ (blanks ++ right)⟩ = .ok us ∧
      us.map Token.kind = ts.map Token.kind

theorem tiling_of_tokens {e : Excerpt} {ts : List Token} (h : tokens e = .ok ts) : Tiling e ts := by
  have hlaid := tokens_eq_ok.1 h
  obtain ⟨hinside, hordered⟩ := hlaid.ordered
  refine ⟨hinside, List.pairwise_append.2 ⟨hordered, List.pairwise_singleton _ _, ?_⟩,
    hlaid.positive, fun _ _ _ => hlaid.uncovered, ⟨kind_ne_stop_of_mem h, rfl⟩, ?_⟩
  · intro t ht stop hstop
    obtain rfl := List.mem_singleton.1 hstop
    obtain ⟨taken, ⟨before, after, hchars, hspan⟩, -⟩ := hlaid.covers ht
    rw [hspan, Span.ofChars, Span.stop, Token.stop, hchars, size_append, size_append]
    dsimp only
    omega
  · intro left right blanks hchars hblanks hspares
    refine ⟨_, tokens_eq_ok.2 (hlaid.insert hchars rfl hspares hblanks), ?_⟩
    rw [List.map_map]
    exact List.map_congr_left fun t _ => t.spaced_kind _ _

end TypedTemplate.Expr
