/-
# `TypedTemplate.Proofs.Expr.Viable` — the token at which an expression cannot go on

When the reader refuses a token, no expression begins with the tokens up to that one; and up to the
one before there was such an expression, whatever the reader had read.  Both are about the texts
that are accepted and not about the reader (`Viable`).

The first is a matter of kinds, because spans are never looked at: where the reader fails on some
tokens it fails on all that begin alike.  For the second an expression is made up: the text breaks
off behind the last token that was taken, and `State.completion` gives a name if one has to come
and closes what is still open.
-/
import TypedTemplate.Proofs.Expr.Derivation
import TypedTemplate.Proofs.Expr.Lexeme

namespace TypedTemplate.Expr

/-- Some expression that is accepted begins with tokens of these kinds, the end being one, too. -/
def Viable (kinds : List TokenKind) : Prop :=
  ∃ (e : Excerpt) (ts : List Token), tokens e = .ok ts ∧ (read e).Succeeds ∧
    kinds <+: ts.map Token.kind ++ [.stop]

variable {s s' : State} {stop t : Token} {ts : List Token} {f : Fault Cause}

/-! ## Where the reader fails -/

/-- The state after some tokens. -/
def State.run (s : State) : List Token → Except (Fault Cause) State
  | [] => .ok s
  | t :: ts => s.step t >>= fun s' => s'.run ts

theorem read_eq {e : Excerpt} (h : tokens e = .ok ts) : read e = readFrom .start (.stop e) ts := by
  rw [read, h]
  rfl

theorem readFrom_append (s : State) (stop : Token) (ts us : List Token) :
    readFrom s stop (ts ++ us) = (s.run ts >>= fun s' => readFrom s' stop us) := by
  induction ts generalizing s with
  | nil => rfl
  | cons t ts ih =>
      rw [List.cons_append, readFrom_cons, State.run]
      cases s.step t with
      | error f => rfl
      | ok s' => exact ih s'

/-- Reading fails at some token, or at the end. -/
theorem readFrom_eq_error (h : readFrom s stop ts = .error f) :
    (∃ before t after s', ts = before ++ t :: after ∧ s.run before = .ok s' ∧
      s'.step t = .error f) ∨
    ∃ s', s.run ts = .ok s' ∧ s'.finish stop = .error f := by
  induction ts generalizing s with
  | nil => exact Or.inr ⟨s, rfl, h⟩
  | cons t ts ih =>
      rw [readFrom_cons] at h
      cases hstep : s.step t with
      | error f' =>
          rw [hstep] at h
          cases h
          exact Or.inl ⟨[], t, ts, s, rfl, rfl, hstep⟩
      | ok next =>
          rw [hstep] at h
          have hrun (us : List Token) : s.run (t :: us) = next.run us := by
            rw [State.run, hstep]
            rfl
          rcases ih h with ⟨before, t', after, s', rfl, hs', hfault⟩ | ⟨s', hs', hfault⟩
          · exact Or.inl ⟨t :: before, t', after, s', rfl, (hrun _).trans hs', hfault⟩
          · exact Or.inr ⟨s', (hrun _).trans hs', hfault⟩

theorem unexpected_span {α : Type} {expected : Expected} (h : (unexpected expected t : Except _ α) =
    .error f) : f.span = t.span := by
  cases h
  rfl

theorem beginOperand_span {frames : List Frame} (h : beginOperand frames t = .error f) :
    f.span = t.span := by
  unfold beginOperand at h
  split at h
  all_goals first
    | exact unexpected_span h
    | cases h

theorem afterOperand_span {e : Expr} {frames : List Frame}
    (h : afterOperand e frames t = .error f) : f.span = t.span := by
  unfold afterOperand at h
  split at h
  all_goals first
    | exact unexpected_span h
    | cases h

theorem continueOperand_span {e : Expr} {frames : List Frame}
    (h : continueOperand e frames t = .error f) : f.span = t.span := by
  unfold continueOperand at h
  split at h
  · cases h
  · exact afterOperand_span h

/-- A token that is refused is where the fault is. -/
theorem State.step_span (h : s.step t = .error f) : f.span = t.span := by
  unfold step at h
  split at h
  · exact beginOperand_span h
  · split at h
    · cases h
    · cases h
    · exact beginOperand_span h
  · split at h
    · cases h
    · exact continueOperand_span h
  · split at h
    · cases h
    · exact unexpected_span h
  · exact continueOperand_span h

/-- If it is the end, the fault is there. -/
theorem State.finish_span (h : s.finish stop = .error f) : f.span = stop.span := by
  unfold finish at h
  dsimp only at h
  split at h
  · exact unexpected_span h
  · exact unexpected_span h
  · split at h
    · cases h
    · exact unexpected_span h
  · exact unexpected_span h
  · split at h
    · cases h
    · exact unexpected_span h

/-! ## No expression goes on there -/

/-- Tokens of the same kinds are read alike. -/
theorem readFrom_succeeds_congr {ts' : List Token} (e e' : Excerpt)
    (hts : ts.map Token.kind = ts'.map Token.kind) (h : (readFrom .start (.stop e) ts).Succeeds) :
    (readFrom .start (.stop e') ts').Succeeds := by
  have hbare (ts : List Token) : ts.map Token.bare =
      (ts.map Token.kind).map fun kind => ⟨kind, Markup.noSpan⟩ := by
    rw [List.map_map]
    rfl
  have hstop : (Token.stop e).bare = (Token.stop e').bare := rfl
  obtain ⟨x, hx⟩ := h
  have hread := readFrom_bare (.stop e) ts .start
  rw [hbare ts, hts, ← hbare ts', hstop, ← readFrom_bare (.stop e') ts' .start, hx] at hread
  cases hread' : readFrom .start (.stop e') ts' with
  | ok y => exact ⟨y, rfl⟩
  | error f =>
      rw [hread'] at hread
      cases hread

/-- If a token is refused after some others, nothing goes on with a token of its kind. -/
theorem not_viable_of_step {before : List Token} (ht : t.kind ≠ .stop)
    (hrun : State.start.run before = .ok s) (hstep : s.step t = .error f) :
    ¬ Viable ((before ++ [t]).map Token.kind) := by
  rintro ⟨e, ts, hts, hread, more, hmore⟩
  rw [read_eq hts] at hread
  rw [List.map_append, List.map_singleton, List.append_assoc, List.singleton_append] at hmore
  rcases List.eq_nil_or_concat more with rfl | ⟨kinds, last, rfl⟩
  · exact ht (List.cons.inj (List.append_inj_right' hmore rfl)).1
  · rw [List.concat_eq_append, ← List.cons_append, ← List.append_assoc] at hmore
    have hkinds : before.map Token.kind ++ t.kind :: kinds = ts.map Token.kind :=
      List.append_inj_left' hmore rfl
    have hcongr : ts.map Token.kind =
        (before ++ t :: kinds.map fun kind => ⟨kind, Markup.noSpan⟩).map Token.kind := by
      rw [← hkinds, List.map_append, List.map_cons, List.map_map]
      exact congrArg _ (congrArg _ (List.map_id kinds).symm)
    obtain ⟨y, hy⟩ := readFrom_succeeds_congr e e hcongr hread
    rw [readFrom_append, hrun] at hy
    have hfails : readFrom s (.stop e) (t :: kinds.map fun kind => ⟨kind, Markup.noSpan⟩) =
        .error f := by
      rw [readFrom_cons, hstep]
      rfl
    exact absurd (hfails.symm.trans hy) nofun

/-- If the end is refused after some tokens, nothing ends after tokens of their kinds. -/
theorem not_viable_of_finish {e : Excerpt} (hrun : State.start.run ts = .ok s)
    (hfinish : s.finish (.stop e) = .error f) :
    ¬ Viable ((ts ++ [Token.stop e]).map Token.kind) := by
  rintro ⟨e', ts', hts', hread, more, hmore⟩
  rw [read_eq hts'] at hread
  rw [List.map_append, List.map_singleton, List.append_assoc, List.singleton_append] at hmore
  rcases List.eq_nil_or_concat more with rfl | ⟨kinds, last, rfl⟩
  · have hkinds : ts.map Token.kind = ts'.map Token.kind := List.append_inj_left' hmore rfl
    obtain ⟨y, hy⟩ := readFrom_succeeds_congr e' e hkinds.symm hread
    rw [← List.append_nil ts, readFrom_append, hrun] at hy
    exact absurd (hfinish.symm.trans hy) nofun
  · rw [List.concat_eq_append, ← List.cons_append, ← List.append_assoc] at hmore
    have hkinds : ts.map Token.kind ++ .stop :: kinds = ts'.map Token.kind :=
      List.append_inj_left' hmore rfl
    have hmem : TokenKind.stop ∈ ts'.map Token.kind := by
      rw [← hkinds]
      exact List.mem_append_right _ List.mem_cons_self
    obtain ⟨t', ht', hstop⟩ := List.mem_map.1 hmem
    exact kind_ne_stop_of_mem hts' t' ht' hstop

/-! ## Up to there an expression goes on -/

/-- What closes a construction. -/
def Frame.closing : Frame → List Char
  | .negation _ => []
  | .group => [' ', ')']
  | .list _ _ => [' ', ']']
  | .arguments _ _ => [' ', ')']

/-- What makes an expression of all that has been read: a name where one has to come, and what
closes the constructions that are open. -/
def State.completion : State → List Char
  | .operand frames | .opened frames | .member _ frames =>
    [' ', 'x'] ++ frames.flatMap Frame.closing
  | .named _ frames | .complete _ frames => frames.flatMap Frame.closing

theorem spaced_closing (frames : List Frame) : Spaced (frames.flatMap Frame.closing) := by
  induction frames with
  | nil => exact Or.inl rfl
  | cons frame frames ih =>
      cases frame with
      | negation bang => exact ih
      | group | list | arguments => exact Or.inr ⟨_, rfl⟩

theorem State.spaced_completion (s : State) : Spaced s.completion := by
  cases s with
  | operand | opened | member => exact Or.inr ⟨_, rfl⟩
  | named _ frames | complete _ frames => exact spaced_closing frames

/-- A space and then a name that ends there. -/
theorem gives_name (pos : Nat) {rest : List Char} (h : Spaced rest) :
    Gives pos [' ', 'x'] [⟨.name "x", ⟨pos + 1, 1⟩⟩] rest := by
  have hrest : Text.startsWhere isNameChar rest = false := by
    rcases h with rfl | ⟨more, rfl⟩
    · rfl
    · show isNameChar ' ' = false
      decide +kernel
  have hone : Gives (pos + 1) ['x'] [⟨.name "x", ⟨pos + 1, 1⟩⟩] rest :=
    .lexeme (.name (by decide +kernel) nofun hrest)
  exact .blank rfl hone

/-- What closes all open constructions. -/
theorem exists_closes (frames : List Frame) (e : Expr) (pos : Nat) :
    ∃ ts res, Gives pos (frames.flatMap Frame.closing) ts [] ∧ Closes res frames e ts := by
  induction frames generalizing e pos with
  | nil => exact ⟨[], e, .nil, rfl, rfl⟩
  | cons frame frames ih =>
      cases frame with
      | negation bang => exact ih _ pos
      | group =>
          obtain ⟨ts, res, hgives, hcloses⟩ := ih e (pos + 2)
          refine ⟨_ :: ts, res, .blank rfl (.mark rfl hgives), ?_⟩
          exact ⟨_, ts, rfl, grows_of hcloses⟩
      | list bracket items =>
          obtain ⟨ts, res, hgives, hcloses⟩ :=
            ih (bracketed bracket (items.reverse ++ [e]) ⟨pos + 1, 1⟩) (pos + 2)
          refine ⟨_ :: ts, res, .blank rfl (.mark rfl hgives), ?_⟩
          exact ⟨.nil, _, ts, rfl, grows_of hcloses⟩
      | arguments callee args =>
          obtain ⟨ts, res, hgives, hcloses⟩ :=
            ih (callee.apply (args.reverse ++ [e]) ⟨pos + 1, 1⟩) (pos + 2)
          refine ⟨_ :: ts, res, .blank rfl (.mark rfl hgives), ?_⟩
          exact ⟨.nil, _, ts, rfl, grows_of hcloses⟩

/-- Whatever has been read can be made an expression. -/
theorem State.exists_continues (s : State) (pos : Nat) :
    ∃ ts res, Gives pos s.completion ts [] ∧ Continues res s ts := by
  have hname (frames : List Frame) (callee : Callee) :
      ∃ ts res, Gives pos ([' ', 'x'] ++ frames.flatMap Frame.closing)
        (⟨.name "x", ⟨pos + 1, 1⟩⟩ :: ts) [] ∧ Calls res callee frames ts := by
    obtain ⟨ts, res, hgives, hcloses⟩ := exists_closes frames callee.plain (pos + 2)
    refine ⟨ts, res, ?_, Or.inl (grows_of hcloses)⟩
    have hx : Gives pos [' ', 'x'] [⟨.name "x", ⟨pos + 1, 1⟩⟩]
        (frames.flatMap Frame.closing ++ []) := by
      rw [List.append_nil]
      exact gives_name pos (spaced_closing frames)
    exact hx.append hgives
  cases s with
  | operand frames =>
      obtain ⟨ts, res, hgives, hcalls⟩ := hname frames (.root "x" ⟨pos + 1, 1⟩)
      exact ⟨_, res, hgives, derives_name.2 hcalls⟩
  | opened frames =>
      obtain ⟨ts, res, hgives, hcalls⟩ := hname frames (.root "x" ⟨pos + 1, 1⟩)
      exact ⟨_, res, hgives, Or.inl (derives_name.2 hcalls)⟩
  | named callee frames =>
      obtain ⟨ts, res, hgives, hcloses⟩ := exists_closes frames callee.plain pos
      exact ⟨ts, res, hgives, Or.inl (grows_of hcloses)⟩
  | member base frames =>
      obtain ⟨ts, res, hgives, hcalls⟩ := hname frames (.member base "x" ⟨pos + 1, 1⟩)
      exact ⟨_, res, hgives, "x", ⟨pos + 1, 1⟩, ts, rfl, hcalls⟩
  | complete e frames =>
      obtain ⟨ts, res, hgives, hcloses⟩ := exists_closes frames e pos
      exact ⟨ts, res, hgives, grows_of hcloses⟩

/-- Tokens that have been taken begin an expression that is accepted. -/
theorem viable_of_run {e : Excerpt} {before after : List Token}
    (hts : tokens e = .ok (before ++ after)) (hrun : State.start.run before = .ok s) :
    Viable (before.map Token.kind) := by
  obtain ⟨kept, -, hgives⟩ := exists_gives hts
  obtain ⟨more, res, hcompletion, hcontinues⟩ := s.exists_continues (e.offset + Text.size kept)
  have hgives : Gives e.offset (kept ++ s.completion) (before ++ more) [] :=
    Gives.append (by
      rw [List.append_nil]
      exact hgives _ s.spaced_completion) hcompletion
  have htokens : tokens ⟨e.offset, kept ++ s.completion⟩ = .ok (before ++ more) :=
    hgives.tokensFrom_eq
  refine ⟨⟨e.offset, kept ++ s.completion⟩, before ++ more, htokens, ⟨res, ?_⟩, ?_⟩
  · rw [read_eq htokens, readFrom_append, hrun]
    exact (readFrom_iff _ more s).2 hcontinues
  · rw [List.map_append, List.append_assoc]
    exact List.prefix_append _ _

/-! ## The grammar -/

/-- A text that can be divided into tokens is read if and only if its tokens can be derived, in one
way, and it is read as what the derivation denotes.  If it cannot be read, the fault is at the first
token such that nothing that is accepted begins with the tokens up to it. -/
theorem read_follows_grammar {e : Excerpt} (hts : tokens e = .ok ts) :
    ((read e).Succeeds ↔ ∃ p : Phrase, p.tokens = ts) ∧
    (∀ p p' : Phrase, p.tokens = ts → p'.tokens = ts → p = p') ∧
    (∀ p : Phrase, p.tokens = ts → read e = .ok p.denote) ∧
    ∀ f, read e = .error f → ∃ before t after, ts ++ [.stop e] = before ++ t :: after ∧
      f.span = t.span ∧ Viable (before.map Token.kind) ∧
      ¬ Viable ((before ++ [t]).map Token.kind) := by
  have hread : read e = ofTokens e ts := read_eq hts
  rw [hread]
  refine ⟨?_, ?_, ?_, ?_⟩
  · constructor
    · rintro ⟨x, hx⟩
      obtain ⟨p, hp, -⟩ := ofTokens_iff.1 hx
      exact ⟨p, hp⟩
    · rintro ⟨p, hp⟩
      exact ⟨p.denote, ofTokens_iff.2 ⟨p, hp, rfl⟩⟩
  · rintro p p' rfl hp'
    refine (Phrase.unique unasked_nil unasked_nil ?_).1
    rw [List.append_nil, List.append_nil, hp']
  · intro p hp
    exact ofTokens_iff.2 ⟨p, hp, rfl⟩
  · intro f hf
    rcases readFrom_eq_error hf with ⟨before, t, after, s, rfl, hrun, hstep⟩ | ⟨s, hrun, hfinish⟩
    · have hstop : t.kind ≠ .stop :=
        kind_ne_stop_of_mem hts t (List.mem_append_right _ List.mem_cons_self)
      refine ⟨before, t, after ++ [.stop e], by simp, State.step_span hstep, ?_, ?_⟩
      · exact viable_of_run hts hrun
      · exact not_viable_of_step hstop hrun hstep
    · have hall : tokens e = .ok (ts ++ []) := by rw [List.append_nil, hts]
      refine ⟨ts, .stop e, [], rfl, State.finish_span hfinish, viable_of_run hall hrun, ?_⟩
      exact not_viable_of_finish hrun hfinish

/-! ## Two questions -/

namespace Questions

/-- A negated call with a group, a call and a list in it. -/
def closed : Excerpt := ⟨0, "!(shop).isOpen(now(), ['a', 1].size)".toList⟩

/-- Two arguments without a comma between them. -/
def torn : Excerpt := ⟨0, "greet(a b)".toList⟩

/-- Where reading fails, if it does. -/
def fault? : Except (Fault Cause) Expr → Option Span
  | .ok _ => none
  | .error f => some f.span

/-- The theorem at a question that can be derived, and at one that goes wrong at its third name. -/
theorem read_follows_grammar_questions :
    (∃ ts p, tokens closed = .ok ts ∧ Phrase.tokens p = ts ∧ read closed = .ok p.denote ∧
      ∀ p' : Phrase, p'.tokens = ts → p = p') ∧
    ∃ ts f, tokens torn = .ok ts ∧ read torn = .error f ∧ f.span = ⟨8, 1⟩ ∧
      ∃ before t after, ts ++ [.stop torn] = before ++ t :: after ∧ f.span = t.span ∧
        Viable (before.map Token.kind) ∧ ¬ Viable ((before ++ [t]).map Token.kind) := by
  have htokens : (tokens closed).Succeeds ∧ (tokens torn).Succeeds := by decide +kernel
  have hreads : (read closed).Succeeds ∧ fault? (read torn) = some ⟨8, 1⟩ := by decide +kernel
  obtain ⟨⟨ts, hts⟩, ⟨us, hus⟩⟩ := htokens
  obtain ⟨hderives, hunique, hdenotes, -⟩ := read_follows_grammar hts
  obtain ⟨p, hp⟩ := hderives.1 hreads.1
  refine ⟨⟨ts, p, hts, hp, hdenotes p hp, fun p' hp' => hunique p p' hp hp'⟩, ?_⟩
  cases hread : read torn with
  | ok x =>
      rw [hread] at hreads
      cases hreads.2
  | error f =>
      rw [hread] at hreads
      exact ⟨us, f, hus, rfl, Option.some.inj hreads.2, (read_follows_grammar hus).2.2.2 f hread⟩

end Questions

end TypedTemplate.Expr
