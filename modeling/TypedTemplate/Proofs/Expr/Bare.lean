/-
# `TypedTemplate.Proofs.Expr.Bare` — expressions without their places

`bare` takes the spans out of the tokens and the trees of expressions.  Neither dividing an
expression into tokens nor forming a tree of them looks at spans except to report faults, so
the bare form of what stands in an excerpt does not depend on where the excerpt stands
(`read_offset`).
-/
import TypedTemplate.Proofs.Except
import TypedTemplate.Proofs.Markup.Bare
import TypedTemplate.Expr.Read

namespace TypedTemplate

open Markup (noSpan)

/-! ## Taking the places out -/

mutual

/-- An expression without its places. -/
def Expr.bare : Expr → Expr
  | .constant literal _ => .constant literal noSpan
  | .listing items _ => .listing (Expr.bareAll items) noSpan
  | .ident word _ => .ident word noSpan
  | .rootCall method args _ => .rootCall method (Expr.bareAll args) noSpan
  | .fieldOf base field _ => .fieldOf base.bare field noSpan
  | .methodOf base method args _ => .methodOf base.bare method (Expr.bareAll args) noSpan
  | .negation operand _ => .negation operand.bare noSpan
termination_by structural e => e

/-- Some expressions without their places. -/
def Expr.bareAll : List Expr → List Expr
  | [] => []
  | e :: es => e.bare :: Expr.bareAll es
termination_by structural es => es

end

theorem Expr.bareAll_eq_map (es : List Expr) : Expr.bareAll es = es.map Expr.bare := by
  induction es with
  | nil => rfl
  | cons e es ih => rw [Expr.bareAll, ih, List.map_cons]

@[simp] theorem Expr.bare_span (e : Expr) : e.bare.span = noSpan := by cases e <;> rfl

@[simp] theorem Span.join_noSpan : noSpan.join noSpan = noSpan := rfl

namespace Expr

/-- A token without its place. -/
def Token.bare (t : Token) : Token := { t with span := noSpan }

/-- What arguments are given to, without its places. -/
def Callee.bare : Callee → Callee
  | .root method _ => .root method noSpan
  | .member base method _ => .member base.bare method noSpan

/-- An unfinished construction without its places. -/
def Frame.bare : Frame → Frame
  | .negation _ => .negation noSpan
  | .group => .group
  | .list _ items => .list noSpan (items.map Expr.bare)
  | .arguments callee args => .arguments callee.bare (args.map Expr.bare)

/-- What has been read, without its places. -/
def State.bare : State → State
  | .operand frames => .operand (frames.map Frame.bare)
  | .opened frames => .opened (frames.map Frame.bare)
  | .named callee frames => .named callee.bare (frames.map Frame.bare)
  | .member base frames => .member base.bare (frames.map Frame.bare)
  | .complete e frames => .complete e.bare (frames.map Frame.bare)

/-! ## Tokens -/

/-- Where a number stands changes nothing but its span. -/
theorem number_offset (pos pos' : Nat) (c : Char) (cs : List Char) :
    (number pos c cs).toOption.map (Prod.map Token.bare id) =
      (number pos' c cs).toOption.map (Prod.map Token.bare id) := by
  unfold number
  dsimp only
  split <;> rfl

/-- Where a token stands changes nothing but its span. -/
theorem lexeme_offset (pos pos' : Nat) (c : Char) (cs : List Char) :
    (lexeme pos c cs).toOption.map (Prod.map Token.bare id) =
      (lexeme pos' c cs).toOption.map (Prod.map Token.bare id) := by
  unfold lexeme
  split
  · rfl
  · split
    · split <;> rfl
    · split
      · exact number_offset pos pos' c cs
      · split <;> rfl

theorem tokensFrom_cons (pos : Nat) (c : Char) (cs : List Char) :
    tokensFrom pos (c :: cs) =
      if Text.isBlank c then tokensFrom (pos + c.utf8Size) cs
      else lexeme pos c cs >>= fun found =>
        (tokensFrom found.1.span.stop found.2).map (found.1 :: ·) := by
  rw [tokensFrom]
  split
  · rfl
  · cases lexeme pos c cs <;> rfl

/-- Where the characters stand changes nothing but the spans of their tokens. -/
theorem tokensFrom_offset (pos pos' : Nat) (cs : List Char) :
    (tokensFrom pos cs).toOption.map (List.map Token.bare) =
      (tokensFrom pos' cs).toOption.map (List.map Token.bare) := by
  induction pos, cs using tokensFrom.induct generalizing pos' with
  | case1 pos => simp [tokensFrom]
  | case2 pos c cs hblank ih =>
      rw [tokensFrom_cons, tokensFrom_cons, if_pos hblank, if_pos hblank]
      exact ih (pos' + c.utf8Size)
  | case3 pos c cs hblank fault hlexeme =>
      have hoffset := lexeme_offset pos pos' c cs
      rw [hlexeme] at hoffset
      rw [tokensFrom_cons, tokensFrom_cons, if_neg hblank, if_neg hblank, hlexeme]
      cases hfound : lexeme pos' c cs with
      | error _ => rfl
      | ok found =>
          rw [hfound] at hoffset
          cases hoffset
  | case4 pos c cs hblank token rest hlexeme ih =>
      have hoffset := lexeme_offset pos pos' c cs
      rw [hlexeme] at hoffset
      rw [tokensFrom_cons, tokensFrom_cons, if_neg hblank, if_neg hblank, hlexeme]
      cases hfound : lexeme pos' c cs with
      | error _ =>
          rw [hfound] at hoffset
          cases hoffset
      | ok found =>
          obtain ⟨token', rest'⟩ := found
          rw [hfound] at hoffset
          simp only [Except.toOption, Option.map_some, Prod.map_apply, id_eq, Option.some.injEq,
            Prod.mk.injEq] at hoffset
          obtain ⟨htoken, rfl⟩ := hoffset
          have hcons (t : Token) : List.map Token.bare ∘ (t :: ·) =
            (t.bare :: ·) ∘ List.map Token.bare := rfl
          show ((tokensFrom token.span.stop rest).map (token :: ·)).toOption.map _ =
            ((tokensFrom token'.span.stop rest).map (token' :: ·)).toOption.map _
          rw [Except.toOption_map, Except.toOption_map, Option.map_map, Option.map_map, hcons,
            hcons, ← Option.map_map, ← Option.map_map, ih token'.span.stop, htoken]

/-! ## The tree -/

theorem Callee.bare_plain (callee : Callee) : callee.bare.plain = callee.plain.bare := by
  cases callee with
  | root method span => rfl
  | member base method span => simp [Callee.bare, Callee.plain, Expr.bare]

theorem Callee.bare_apply (callee : Callee) (args : List Expr) (close : Span) :
    callee.bare.apply (args.map Expr.bare) noSpan = (callee.apply args close).bare := by
  cases callee with
  | root method span => simp [Callee.bare, Callee.apply, Expr.bare, bareAll_eq_map]
  | member base method span => simp [Callee.bare, Callee.apply, Expr.bare, bareAll_eq_map]

theorem negate_bare (e : Expr) (frames : List Frame) :
    negate e.bare (frames.map Frame.bare) =
      Prod.map Expr.bare (List.map Frame.bare) (negate e frames) := by
  induction frames generalizing e with
  | nil => rfl
  | cons frame frames ih =>
      cases frame with
      | negation bang =>
          rw [List.map_cons, Frame.bare, negate, negate, ← ih, bare_span, Span.join_noSpan]
          rfl
      | group => rfl
      | list bracket items => rfl
      | arguments callee args => rfl

section

variable (frames : List Frame) (t : Token)

theorem beginOperand_bare :
    (beginOperand frames t).toOption.map State.bare =
      (beginOperand (frames.map Frame.bare) t.bare).toOption := by
  obtain ⟨kind, span⟩ := t
  cases kind <;> rfl

theorem afterOperand_bare (e : Expr) :
    (afterOperand e frames t).toOption.map State.bare =
      (afterOperand e.bare (frames.map Frame.bare) t.bare).toOption := by
  obtain ⟨kind, span⟩ := t
  cases frames with
  | nil => rfl
  | cons frame frames =>
      cases frame with
      | negation bang => rfl
      | group => cases kind <;> rfl
      | list bracket items =>
          cases kind with
          | closeBracket =>
              simp [afterOperand, Token.bare, Frame.bare, Except.toOption, State.bare, Expr.bare,
                bareAll_eq_map]
          | _ => rfl
      | arguments callee args =>
          cases kind with
          | closeParen =>
              simp [afterOperand, Token.bare, Frame.bare, Except.toOption, State.bare,
                ← Callee.bare_apply callee _ span]
          | _ => rfl

theorem continueOperand_bare (e : Expr) :
    (continueOperand e frames t).toOption.map State.bare =
      (continueOperand e.bare (frames.map Frame.bare) t.bare).toOption := by
  have hafter := afterOperand_bare (negate e frames).2 t (negate e frames).1
  obtain ⟨kind, span⟩ := t
  cases kind with
  | dot => rfl
  | _ =>
      simp only [continueOperand, negate_bare e frames, Token.bare] at hafter ⊢
      exact hafter

end

/-- A token without its place is taken as the token is. -/
theorem State.step_bare (s : State) (t : Token) :
    (s.step t).toOption.map State.bare = (s.bare.step t.bare).toOption := by
  cases s with
  | operand frames => exact beginOperand_bare frames t
  | opened frames =>
      have hbegin := beginOperand_bare frames t
      obtain ⟨kind, span⟩ := t
      cases frames with
      | nil => exact hbegin
      | cons frame frames =>
          cases frame with
          | negation bang => exact hbegin
          | group => exact hbegin
          | list bracket items =>
              cases items with
              | nil =>
                  cases kind with
                  | closeBracket => rfl
                  | _ => exact hbegin
              | cons e es => exact hbegin
          | arguments callee args =>
              cases args with
              | nil =>
                  cases kind with
                  | closeParen =>
                      have happly := Callee.bare_apply callee [] span
                      rw [List.map_nil] at happly
                      simp [step, Token.bare, Frame.bare, Except.toOption, State.bare, happly]
                  | _ => exact hbegin
              | cons e es => exact hbegin
  | named callee frames =>
      have hcontinue := continueOperand_bare frames t callee.plain
      rw [← Callee.bare_plain] at hcontinue
      obtain ⟨kind, span⟩ := t
      cases kind with
      | openParen => rfl
      | _ => exact hcontinue
  | member base frames =>
      obtain ⟨kind, span⟩ := t
      cases kind <;> rfl
  | complete e frames => exact continueOperand_bare frames t e

/-- The end is taken alike with and without places. -/
theorem State.finish_bare (s : State) (stop : Token) :
    (s.finish stop).toOption.map Expr.bare = (s.bare.finish stop.bare).toOption := by
  have hdone (e : Expr) (frames : List Frame) :
      ((State.complete e frames).finish stop).toOption.map Expr.bare =
        ((State.complete e frames).bare.finish stop.bare).toOption := by
    simp only [bare, finish, negate_bare]
    obtain ⟨e, frames⟩ := negate e frames
    cases frames <;> rfl
  cases s with
  | operand frames => rfl
  | opened frames => rfl
  | named callee frames =>
      have hplain := hdone callee.plain frames
      rw [State.bare, ← Callee.bare_plain] at hplain
      exact hplain
  | member base frames => rfl
  | complete e frames => exact hdone e frames

theorem readFrom_cons (s : State) (stop t : Token) (ts : List Token) :
    readFrom s stop (t :: ts) = (s.step t >>= fun next => readFrom next stop ts) := by
  rw [readFrom]
  cases s.step t <;> rfl

theorem readFrom_bare (stop : Token) (ts : List Token) (s : State) :
    (readFrom s stop ts).toOption.map Expr.bare =
      (readFrom s.bare stop.bare (ts.map Token.bare)).toOption := by
  induction ts generalizing s with
  | nil => exact s.finish_bare stop
  | cons t ts ih =>
      rw [List.map_cons, readFrom_cons, readFrom_cons]
      exact Except.map_toOption_bind (s.step_bare t) ih

/-- What stands in an excerpt is the same expression wherever the excerpt stands. -/
theorem read_offset (pos pos' : Nat) (cs : List Char) :
    (read ⟨pos, cs⟩).toOption.map Expr.bare = (read ⟨pos', cs⟩).toOption.map Expr.bare := by
  have hread (pos : Nat) : (read ⟨pos, cs⟩).toOption.map Expr.bare =
      ((tokensFrom pos cs).toOption.map (List.map Token.bare)).bind fun ts =>
        (readFrom .start ⟨.stop, noSpan⟩ ts).toOption := by
    rw [read, Except.toOption_bind, tokens]
    cases (tokensFrom pos cs).toOption with
    | none => rfl
    | some ts => exact readFrom_bare (.stop ⟨pos, cs⟩) ts .start
  rw [hread, hread, tokensFrom_offset]

end Expr

end TypedTemplate
