/-
# `TypedTemplate.Proofs.Fragment.Braces` — the brace that ends an expression

Where an expression in text ends is decided by `untilBrace`, which knows no more of the
language than its string literals.  `Passes place cs place'` says that it goes through `cs`
without meeting a brace that counts, from `place` to `place'`; it stops at the first place
where this is not so (`untilBrace_eq_some`, `untilBrace_eq_none`).

Tokens end outside string literals and have no brace outside them, so an expression that
can be divided into tokens is passed from code to code (`Expr.tokensFrom_passes`), and a
brace that is put after it is the one that ends it.
-/
import TypedTemplate.Proofs.Expr.Bare
import TypedTemplate.Proofs.Text.Cut
import TypedTemplate.Fragment.Interpolation

namespace TypedTemplate

namespace Interpolation

/-- The characters lead from one place to another, and no brace that counts is among them. -/
inductive Passes : Place → List Char → Place → Prop where
  | nil {place : Place} : Passes place [] place
  | cons {place place' : Place} {c : Char} {cs : List Char} : (place = .code → c ≠ '\x7d') →
      Passes (place.after c) cs place' → Passes place (c :: cs) place'

namespace Passes

variable {place place' : Place} {cs : List Char}

theorem append_iff {as bs : List Char} : Passes place (as ++ bs) place' ↔
    ∃ between, Passes place as between ∧ Passes between bs place' := by
  induction as generalizing place with
  | nil =>
      constructor
      · intro h
        exact ⟨place, .nil, h⟩
      · rintro ⟨between, hnil, h⟩
        cases hnil
        exact h
  | cons a as ih =>
      constructor
      · intro h
        cases h with
        | cons hbrace hrest =>
            obtain ⟨between, has, hbs⟩ := ih.1 hrest
            exact ⟨between, .cons hbrace has, hbs⟩
      · rintro ⟨between, has, hbs⟩
        cases has with
        | cons hbrace hrest => exact .cons hbrace (ih.2 ⟨between, hrest, hbs⟩)

/-- Characters of a kind that no quote and no brace is of are passed in code. -/
theorem code {p : Char → Bool} (hdouble : p '"' = false) (hsingle : p '\'' = false)
    (hbrace : p '\x7d' = false) (h : ∀ c ∈ cs, p c = true) : Passes .code cs .code := by
  have hne {c d : Char} (hc : p c = true) (hd : p d = false) : c ≠ d := by
    rintro rfl
    rw [hc] at hd
    cases hd
  induction cs with
  | nil => exact .nil
  | cons c cs ih =>
      obtain ⟨hc, hrest⟩ := List.forall_mem_cons.1 h
      refine .cons (fun _ => hne hc hbrace) ?_
      rw [Place.after, if_neg (by simp [hne hc hdouble, hne hc hsingle])]
      exact ih hrest

end Passes

variable {place : Place} {cs : List Char}

theorem untilBrace_eq_some {body rest : List Char} : untilBrace place cs = some (body, rest) ↔
    cs = body ++ '\x7d' :: rest ∧ Passes place body .code := by
  induction cs generalizing place body with
  | nil => simp [untilBrace]
  | cons c cs ih =>
      rw [untilBrace]
      split
      · rename_i hends
        obtain ⟨rfl, rfl⟩ := hends
        simp only [Option.some.injEq, Prod.mk.injEq]
        constructor
        · rintro ⟨rfl, rfl⟩
          exact ⟨rfl, .nil⟩
        · rintro ⟨hcs, hpasses⟩
          cases hpasses with
          | nil => exact ⟨rfl, (List.cons.inj hcs).2⟩
          | cons hbrace _ => exact (hbrace rfl (List.cons.inj hcs).1.symm).elim
      · rename_i hgoes
        simp only [Option.map_eq_some_iff, Prod.mk.injEq, Prod.exists]
        constructor
        · rintro ⟨body, _, hbody, rfl, rfl⟩
          obtain ⟨rfl, hpasses⟩ := ih.1 hbody
          exact ⟨rfl, .cons (fun hcode hbrace => hgoes ⟨hcode, hbrace⟩) hpasses⟩
        · rintro ⟨hcs, hpasses⟩
          cases hpasses with
          | nil => exact (hgoes ⟨rfl, (List.cons.inj hcs).1⟩).elim
          | cons _ hrest =>
              obtain ⟨rfl, rfl⟩ := List.cons.inj hcs
              exact ⟨_, _, ih.2 ⟨rfl, hrest⟩, rfl, rfl⟩

theorem untilBrace_eq_none : untilBrace place cs = none ↔ ∃ place', Passes place cs place' := by
  induction cs generalizing place with
  | nil => exact ⟨fun _ => ⟨place, .nil⟩, fun _ => rfl⟩
  | cons c cs ih =>
      rw [untilBrace]
      split
      · rename_i hends
        simp only [reduceCtorEq, false_iff]
        rintro ⟨place', hpasses⟩
        cases hpasses with
        | cons hbrace _ => exact hbrace hends.1 hends.2
      · rename_i hgoes
        rw [Option.map_eq_none_iff, ih]
        constructor
        · rintro ⟨place', hpasses⟩
          exact ⟨place', .cons (fun hcode hbrace => hgoes ⟨hcode, hbrace⟩) hpasses⟩
        · rintro ⟨place', hpasses⟩
          cases hpasses with
          | cons _ hrest => exact ⟨place', hrest⟩

/-! ### Text that begins an expression -/

theorem parts_opener (pos : Nat) (cs : List Char) :
    parts pos (opener ++ cs) =
      match untilBrace .code cs with
      | none => [.plain [], .unterminated ⟨pos, 2⟩]
      | some (body, rest) =>
        .plain [] :: .code ⟨pos + 2, body⟩ :: parts (pos + 2 + Text.size body + 1) rest := by
  have hcut : Text.cut? begins (opener ++ cs) = some ([], opener ++ cs) := rfl
  rw [parts]
  split
  · rename_i hnone
    rw [hcut] at hnone
    cases hnone
  · rename_i hsome
    cases hcut.symm.trans hsome
    have hdrop : (opener ++ cs).drop 2 = cs := rfl
    split
    · rename_i hnone
      rw [hdrop] at hnone
      rw [hnone]
      rfl
    · rename_i hbody
      rw [hdrop] at hbody
      rw [hbody]
      rfl

/-- Text that is one expression. -/
theorem parts_closed (pos : Nat) {body : List Char} (h : Passes .code body .code) :
    parts pos (opener ++ (body ++ ['\x7d'])) = [.plain [], .code ⟨pos + 2, body⟩, .plain []] := by
  have hnil (pos : Nat) : parts pos [] = [.plain []] := by simp [parts, Text.cut?]
  rw [parts_opener, untilBrace_eq_some.2 ⟨rfl, h⟩]
  exact congrArg _ (congrArg _ (hnil _))

/-- Text that begins an expression and does not end it. -/
theorem parts_open (pos : Nat) {body : List Char} (h : untilBrace .code body = none) :
    parts pos (opener ++ body) = [.plain [], .unterminated ⟨pos, 2⟩] := by
  rw [parts_opener, h]

end Interpolation

/-! ## Tokens are passed -/

namespace Expr

open Text Interpolation

variable {pos : Nat} {c quote : Char} {cs body rest : List Char}

/-- A string literal is passed up to its closing quote. -/
theorem stringBody_passes (h : stringBody quote cs = some (body, rest)) :
    cs = body ++ quote :: rest ∧ Passes (.string quote) body (.string quote) := by
  fun_induction stringBody quote cs generalizing body with
  | case1 => cases h
  | case2 cs =>
      cases h
      exact ⟨rfl, .nil⟩
  | case3 => cases h
  | case4 d cs _ ih =>
      obtain ⟨⟨b, r⟩, hbody, heq⟩ := Option.map_eq_some_iff.1 h
      cases heq
      obtain ⟨rfl, hpasses⟩ := ih hbody
      exact ⟨rfl, .cons (by simp) (.cons (by simp [Place.after]) hpasses)⟩
  | case5 c cs hends hescape ih =>
      obtain ⟨⟨b, r⟩, hbody, heq⟩ := Option.map_eq_some_iff.1 h
      cases heq
      obtain ⟨rfl, hpasses⟩ := ih hbody
      refine ⟨rfl, .cons (by simp) ?_⟩
      rwa [Place.after, if_neg hescape, if_neg hends]

/-- The characters of numbers. -/
def isNumeralChar (c : Char) : Bool := c.isDigit || c == '.' || c == '-'

theorem Numeral.chars_read (negative : Bool) (cs : List Char) :
    (read negative cs).1.chars ++ (read negative cs).2 =
      (if negative then ['-'] else []) ++ cs := by
  unfold read
  split
  · rename_i d more hrest
    split
    · simp only [chars, List.append_assoc, List.cons_append, List.takeWhile_append_dropWhile,
        ← hrest]
    · simp only [chars, List.append_assoc, List.append_nil, ← hrest,
        List.takeWhile_append_dropWhile]
  · simp only [chars, List.append_assoc, List.append_nil, List.takeWhile_append_dropWhile]

theorem Numeral.isNumeralChar_read (negative : Bool) (cs : List Char) :
    ∀ c ∈ (read negative cs).1.chars, isNumeralChar c = true := by
  have hdigits (cs : List Char) : ∀ c ∈ cs.takeWhile Char.isDigit, isNumeralChar c = true := by
    intro c hc
    simp [isNumeralChar, List.mem_takeWhile_imp hc]
  have hsign : ∀ c ∈ (if negative then ['-'] else []), isNumeralChar c = true := by
    cases negative with
    | true => simp [isNumeralChar]
    | false => simp
  unfold read
  split
  · split
    · simp only [chars, List.mem_append, List.mem_cons]
      rintro c ((hc | hc) | rfl | hc)
      · exact hsign c hc
      · exact hdigits _ c hc
      · rfl
      · exact hdigits _ c hc
    · simp only [chars, List.append_nil, List.mem_append]
      rintro c (hc | hc)
      · exact hsign c hc
      · exact hdigits _ c hc
  · simp only [chars, List.append_nil, List.mem_append]
    rintro c (hc | hc)
    · exact hsign c hc
    · exact hdigits _ c hc

theorem number_passes {t : Token} (h : number pos c cs = .ok (t, rest)) :
    ∃ taken, c :: cs = taken ++ rest ∧ Passes .code taken .code := by
  have hread (negative : Bool) (ds : List Char)
      (hsign : (if negative then ['-'] else []) ++ ds = c :: cs) :
      ∃ taken, c :: cs = taken ++ (Numeral.read negative ds).2 ∧ Passes .code taken .code := by
    refine ⟨(Numeral.read negative ds).1.chars, ?_, ?_⟩
    · rw [← hsign, ← Numeral.chars_read]
    · exact .code rfl rfl rfl (Numeral.isNumeralChar_read negative ds)
  unfold number at h
  dsimp only at h
  split at h
  · cases h
    by_cases hminus : c = '-'
    · rw [if_pos hminus]
      exact hread true cs (by rw [hminus]; rfl)
    · rw [if_neg hminus]
      exact hread false (c :: cs) rfl
  · cases h

theorem isNameChar_of_isNameStart (h : isNameStart c = true) : isNameChar c = true := by
  simp only [isNameStart, isNameChar, Bool.or_eq_true] at h ⊢
  exact h.imp_left Or.inl

theorem lexeme_passes {t : Token} (h : lexeme pos c cs = .ok (t, rest)) :
    ∃ taken, c :: cs = taken ++ rest ∧ Passes .code taken .code := by
  unfold lexeme at h
  split at h
  · rename_i kind hkind
    cases h
    refine ⟨[c], rfl, .code (p := fun d => (punctuation? d).isSome) rfl rfl rfl ?_⟩
    simp [hkind]
  · split at h
    · rename_i hquote
      split at h
      · rename_i body left hbody
        cases h
        obtain ⟨rfl, hpasses⟩ := stringBody_passes hbody
        refine ⟨c :: (body ++ [c]), by simp, ?_⟩
        have hopen : Place.after c .code = .string c := if_pos hquote
        have hclose : Place.after c (.string c) = .code := by
          rcases hquote with rfl | rfl <;> rfl
        refine .cons (fun _ => ?_) ?_
        · rcases hquote with rfl | rfl <;> decide
        · rw [hopen]
          refine Passes.append_iff.2 ⟨.string c, hpasses, .cons (by simp) ?_⟩
          rw [hclose]
          exact .nil
      · cases h
    · split at h
      · exact number_passes h
      · split at h
        · rename_i hstart
          cases h
          refine ⟨c :: cs.takeWhile isNameChar, ?_, .code (p := isNameChar) ?_ ?_ ?_ ?_⟩
          · rw [List.cons_append, List.takeWhile_append_dropWhile]
          · decide +kernel
          · decide +kernel
          · decide +kernel
          · exact List.forall_mem_cons.2 ⟨isNameChar_of_isNameStart hstart,
              fun d hd => List.mem_takeWhile_imp hd⟩
        · cases h

/-- Characters that can be divided into tokens are passed from code to code. -/
theorem tokensFrom_passes {ts : List Token} (h : tokensFrom pos cs = .ok ts) :
    Passes .code cs .code := by
  induction pos, cs using tokensFrom.induct generalizing ts with
  | case1 pos => exact .nil
  | case2 pos c cs hblank ih =>
      rw [tokensFrom_cons, if_pos hblank] at h
      have hc : Passes .code [c] .code := .code (p := isBlank) rfl rfl rfl (by simpa using hblank)
      exact Passes.append_iff.2 ⟨.code, hc, ih h⟩
  | case3 pos c cs hblank fault hlexeme =>
      rw [tokensFrom_cons, if_neg hblank, hlexeme] at h
      cases h
  | case4 pos c cs hblank token rest hlexeme ih =>
      rw [tokensFrom_cons, if_neg hblank, Except.bind_eq_ok] at h
      obtain ⟨found, hfound, hmap⟩ := h
      cases hlexeme.symm.trans hfound
      obtain ⟨more, hmore, -⟩ := Except.map_eq_ok.1 hmap
      obtain ⟨taken, htaken, hpasses⟩ := lexeme_passes hlexeme
      rw [htaken]
      exact Passes.append_iff.2 ⟨.code, hpasses, ih hmore⟩

end Expr

end TypedTemplate
