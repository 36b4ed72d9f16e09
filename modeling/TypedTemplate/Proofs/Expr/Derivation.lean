/-
# `TypedTemplate.Proofs.Expr.Derivation` — the reader finds derivations

The reader knows what it is in the middle of, and that says what has to come: after an operand all
that is still asked of it, then what each open construction waits for, innermost first
(`Closes`).  `Continues s e ts` says that the tokens `ts` are such a continuation from the state
`s`, and that `e` is what has been read in the end.

Each step of the reader takes the first token off a continuation and is possible only if there
is one (`State.step_iff`).  So what is read is what can be derived, without any account of what was
read before (`readFrom_iff`, `ofTokens_iff`).
-/
import TypedTemplate.Proofs.Expr.Grammar

namespace TypedTemplate.Expr

variable {res e : Expr} {frames : List Frame} {t : Token} {ts : List Token}

/-! ## What has to come -/

/-- The members asked of an operand, and then what `after` says of the operand that they make. -/
def Grows (after : Expr → List Token → Prop) (e : Expr) (ts : List Token) : Prop :=
  ∃ (links : Links) (rest : List Token), ts = links.tokens ++ rest ∧ after (links.denote e) rest

/-- Further items up to a closing bracket, and what grows from all the items together. -/
def Collects (closer : TokenKind) (build : List Expr → Span → Expr)
    (after : Expr → List Token → Prop) (before : List Expr) (e : Expr) (ts : List Token) : Prop :=
  ∃ (more : More) (closing : Span) (rest : List Token),
    ts = more.tokens ++ ⟨closer, closing⟩ :: rest ∧
      Grows after (build (before.reverse ++ e :: more.denote) closing) rest

/-- A closing bracket where no item has been read, and what grows from there. -/
def ClosesAtOnce (closer : TokenKind) (build : List Expr → Span → Expr)
    (after : Expr → List Token → Prop) (ts : List Token) : Prop :=
  ∃ (closing : Span) (rest : List Token),
    ts = ⟨closer, closing⟩ :: rest ∧ Grows after (build [] closing) rest

/-- A list in brackets. -/
def bracketed (bracket : Span) (items : List Expr) (closing : Span) : Expr :=
  .listing items (bracket.join closing)

/-- What has to come after a complete operand for all to be read as `res`. -/
def Closes (res : Expr) : List Frame → Expr → List Token → Prop
  | [], e, ts => ts = [] ∧ res = e
  | .negation bang :: frames, e, ts => Closes res frames (.negation e (bang.join e.span)) ts
  | .group :: frames, e, ts =>
    ∃ closing rest, ts = ⟨.closeParen, closing⟩ :: rest ∧ Grows (Closes res frames) e rest
  | .list bracket items :: frames, e, ts =>
    Collects .closeBracket (bracketed bracket) (Closes res frames) items e ts
  | .arguments callee args :: frames, e, ts =>
    Collects .closeParen (fun args closing => callee.apply args closing) (Closes res frames) args
      e ts

/-- An expression, and what has to come after it. -/
def Derives (res : Expr) (frames : List Frame) (ts : List Token) : Prop :=
  ∃ (p : Phrase) (rest : List Token), ts = p.tokens ++ rest ∧ Closes res frames p.denote rest

/-- What has to come where a list or a call has just been opened, other than an expression. -/
def Empties (res : Expr) : List Frame → List Token → Prop
  | .list bracket [] :: frames, ts =>
    ClosesAtOnce .closeBracket (bracketed bracket) (Closes res frames) ts
  | .arguments callee [] :: frames, ts =>
    ClosesAtOnce .closeParen (fun args closing => callee.apply args closing) (Closes res frames) ts
  | _, _ => False

/-- What has to come after a name: something may be asked of it, or arguments follow. -/
def Calls (res : Expr) (callee : Callee) (frames : List Frame) (ts : List Token) : Prop :=
  Grows (Closes res frames) callee.plain ts ∨
    ∃ opening items closing rest,
      ts = ⟨.openParen, opening⟩ :: (Items.tokens items ++ ⟨.closeParen, closing⟩ :: rest) ∧
        Grows (Closes res frames) (callee.apply items.denote closing) rest

/-- The tokens continue what has been read, and all is read as `res`. -/
def Continues (res : Expr) : State → List Token → Prop
  | .operand frames, ts => Derives res frames ts
  | .opened frames, ts => Derives res frames ts ∨ Empties res frames ts
  | .named callee frames, ts => Calls res callee frames ts
  | .member base frames, ts =>
    ∃ word span rest, ts = ⟨.name word, span⟩ :: rest ∧
      Calls res (.member base word span) frames rest
  | .complete e frames, ts => Grows (Closes res frames) e ts

/-! ## An operand begins -/

theorem not_derives_of_not_begins {kind : TokenKind} {span : Span} (h : ¬ kind.Begins) :
    ¬ Derives res frames (⟨kind, span⟩ :: ts) := by
  rintro ⟨p, rest, hts, -⟩
  obtain ⟨t', ts', htokens, hbegins⟩ := p.tokens_eq_cons
  rw [htokens] at hts
  obtain ⟨rfl, -⟩ := List.cons.inj hts
  exact h hbegins

theorem derives_bang {bang : Span} : Derives res frames (⟨.bang, bang⟩ :: ts) ↔
    Derives res (.negation bang :: frames) ts := by
  constructor
  · rintro ⟨p, rest, hts, hcloses⟩
    cases p with
    | negation bang' operand =>
        cases hts
        exact ⟨operand, rest, rfl, hcloses⟩
    | chain atom links =>
        obtain ⟨t, ts', htokens, -, hbang⟩ := atom.tokens_eq_cons
        rw [Phrase.tokens, htokens] at hts
        cases hts
        exact (hbang rfl).elim
  · rintro ⟨p, rest, rfl, hcloses⟩
    exact ⟨.negation bang p, rest, rfl, hcloses⟩

/-- The operand that a token begins, together with what is asked of it. -/
theorem derives_chain {kind : TokenKind} {span : Span} (hbang : kind ≠ .bang) :
    Derives res frames (⟨kind, span⟩ :: ts) ↔
    ∃ (atom : Atom) (links : Links) (rest : List Token),
      ⟨kind, span⟩ :: ts = atom.tokens ++ (links.tokens ++ rest) ∧
        Closes res frames (links.denote atom.denote) rest := by
  constructor
  · rintro ⟨p, rest, hts, hcloses⟩
    cases p with
    | negation bang operand =>
        cases hts
        exact (hbang rfl).elim
    | chain atom links =>
        rw [Phrase.tokens, List.append_assoc] at hts
        exact ⟨atom, links, rest, hts, hcloses⟩
  · rintro ⟨atom, links, rest, hts, hcloses⟩
    exact ⟨.chain atom links, rest, by rw [hts, Phrase.tokens, List.append_assoc], hcloses⟩

theorem derives_literal {literal : Literal} {span : Span} :
    Derives res frames (⟨.literal literal, span⟩ :: ts) ↔
      Grows (Closes res frames) (.constant literal span) ts := by
  refine (derives_chain (by nofun)).trans ?_
  constructor
  · rintro ⟨atom, links, rest, hts, hcloses⟩
    cases atom <;> cases hts
    exact ⟨links, rest, rfl, hcloses⟩
  · rintro ⟨links, rest, rfl, hcloses⟩
    exact ⟨.literal literal span, links, rest, rfl, hcloses⟩

theorem derives_name {word : String} {span : Span} :
    Derives res frames (⟨.name word, span⟩ :: ts) ↔ Calls res (.root word span) frames ts := by
  refine (derives_chain (by nofun)).trans ?_
  constructor
  · rintro ⟨atom, links, rest, hts, hcloses⟩
    cases atom with
    | name word' span' =>
        cases hts
        exact Or.inl ⟨links, rest, rfl, hcloses⟩
    | call word' span' opening args closing =>
        simp only [Atom.tokens, List.cons_append, List.append_assoc, List.nil_append] at hts
        cases hts
        exact Or.inr ⟨opening, args, closing, _, rfl, links, rest, rfl, hcloses⟩
    | literal | group | list => cases hts
  · rintro (⟨links, rest, rfl, hcloses⟩ |
      ⟨opening, args, closing, _, rfl, links, rest, rfl, hcloses⟩)
    · exact ⟨.name word span, links, rest, rfl, hcloses⟩
    · refine ⟨.call word span opening args closing, links, rest, ?_, hcloses⟩
      simp [Atom.tokens]

theorem derives_group {opening : Span} :
    Derives res frames (⟨.openParen, opening⟩ :: ts) ↔ Derives res (.group :: frames) ts := by
  refine (derives_chain (by nofun)).trans ?_
  constructor
  · rintro ⟨atom, links, rest, hts, hcloses⟩
    cases atom with
    | group opening' inner closing =>
        simp only [Atom.tokens, List.cons_append, List.append_assoc, List.nil_append] at hts
        cases hts
        exact ⟨inner, _, rfl, closing, _, rfl, links, rest, rfl, hcloses⟩
    | literal | name | call | list => cases hts
  · rintro ⟨inner, _, rfl, closing, _, rfl, links, rest, rfl, hcloses⟩
    refine ⟨.group opening inner closing, links, rest, ?_, hcloses⟩
    simp [Atom.tokens]

theorem derives_list {bracket : Span} : Derives res frames (⟨.openBracket, bracket⟩ :: ts) ↔
    Derives res (.list bracket [] :: frames) ts ∨ Empties res (.list bracket [] :: frames) ts := by
  refine (derives_chain (by nofun)).trans ?_
  constructor
  · rintro ⟨atom, links, rest, hts, hcloses⟩
    cases atom with
    | list bracket' items closing =>
        simp only [Atom.tokens, List.cons_append, List.append_assoc, List.nil_append] at hts
        cases hts
        cases items with
        | none => exact Or.inr ⟨closing, _, rfl, links, rest, rfl, hcloses⟩
        | some first more =>
            refine Or.inl ⟨first, _, ?_, more, closing, _, rfl, links, rest, rfl, hcloses⟩
            rw [Items.tokens, List.append_assoc]
    | literal | name | call | group => cases hts
  · rintro (⟨first, _, rfl, more, closing, _, rfl, links, rest, rfl, hcloses⟩ |
      ⟨closing, _, rfl, links, rest, rfl, hcloses⟩)
    · refine ⟨.list bracket (.some first more) closing, links, rest, ?_, hcloses⟩
      simp [Atom.tokens, Items.tokens]
    · exact ⟨.list bracket .none closing, links, rest, rfl, hcloses⟩

/-- A token that begins an operand is the first of a continuation. -/
theorem beginOperand_iff : Derives res frames (t :: ts) ↔
    ∃ s, beginOperand frames t = .ok s ∧ Continues res s ts := by
  obtain ⟨kind, span⟩ := t
  have hok (s : State) (h : beginOperand frames ⟨kind, span⟩ = .ok s) :
      (∃ s', beginOperand frames ⟨kind, span⟩ = .ok s' ∧ Continues res s' ts) ↔
        Continues res s ts := by
    rw [h]
    constructor
    · rintro ⟨_, ⟨⟩, hcontinues⟩
      exact hcontinues
    · intro hcontinues
      exact ⟨s, rfl, hcontinues⟩
  cases kind with
  | bang => rw [hok _ rfl, derives_bang]; rfl
  | literal literal => rw [hok _ rfl, derives_literal]; rfl
  | name word => rw [hok _ rfl, derives_name]; rfl
  | openParen => rw [hok _ rfl, derives_group]; rfl
  | openBracket => rw [hok _ rfl, derives_list]; rfl
  | _ =>
      constructor
      · intro h
        exact (not_derives_of_not_begins (by nofun) h).elim
      · rintro ⟨_, ⟨⟩, -⟩

/-! ## An operand is complete -/

theorem grows_of {after : Expr → List Token → Prop} (h : after e ts) : Grows after e ts :=
  ⟨.nil, ts, rfl, h⟩

/-- What grows from an operand without a point grows without links. -/
theorem grows_iff_of_ne_dot {after : Expr → List Token → Prop} (h : t.kind ≠ .dot) :
    Grows after e (t :: ts) ↔ after e (t :: ts) := by
  constructor
  · rintro ⟨links, rest, hts, hafter⟩
    cases links with
    | nil =>
        rw [Links.tokens, List.nil_append] at hts
        rw [hts]
        exact hafter
    | field | method =>
        cases hts
        exact (h rfl).elim
  · exact grows_of

/-- A token that an operand is complete before. -/
inductive TokenKind.Ends : TokenKind → Prop where
  | comma : Ends .comma
  | closeParen : Ends .closeParen
  | closeBracket : Ends .closeBracket

theorem Collects.ends {closer : TokenKind} {build : List Expr → Span → Expr}
    {after : Expr → List Token → Prop} {before : List Expr} (hcloser : closer.Ends)
    (h : Collects closer build after before e (t :: ts)) : t.kind.Ends := by
  obtain ⟨more, closing, rest, hts, -⟩ := h
  cases more with
  | nil =>
      cases hts
      exact hcloser
  | cons comma item more =>
      cases hts
      exact .comma

theorem Closes.ends (h : Closes res frames e (t :: ts)) : t.kind.Ends := by
  induction frames generalizing e with
  | nil => cases h.1
  | cons frame frames ih =>
      cases frame with
      | negation bang => exact ih h
      | group =>
          obtain ⟨closing, rest, hts, -⟩ := h
          cases hts
          exact .closeParen
      | list bracket items => exact Collects.ends .closeBracket h
      | arguments callee args => exact Collects.ends .closeParen h

/-- The negations that wait for an operand take it once it is complete. -/
theorem closes_negate (frames : List Frame) (e : Expr) :
    Closes res frames e ts ↔ Closes res (negate e frames).2 (negate e frames).1 ts := by
  induction frames generalizing e with
  | nil => rfl
  | cons frame frames ih =>
      cases frame with
      | negation bang => exact ih _
      | group | list | arguments => rfl

/-- After an item comes a closing bracket, or a comma and another item. -/
theorem collects_iff {closer : TokenKind} {build : List Expr → Span → Expr}
    {after : Expr → List Token → Prop} {before : List Expr} {kind : TokenKind} {span : Span} :
    Collects closer build after before e (⟨kind, span⟩ :: ts) ↔
      (kind = closer ∧ Grows after (build (e :: before).reverse span) ts) ∨
      (kind = .comma ∧ ∃ (p : Phrase) (rest : List Token), ts = p.tokens ++ rest ∧
        Collects closer build after (e :: before) p.denote rest) := by
  constructor
  · rintro ⟨more, closing, rest, hts, hgrows⟩
    cases more with
    | nil =>
        cases hts
        rw [More.denote, ← List.reverse_cons] at hgrows
        exact Or.inl ⟨rfl, hgrows⟩
    | cons comma item more =>
        cases hts
        refine Or.inr ⟨rfl, item, more.tokens ++ ⟨closer, closing⟩ :: rest, ?_, ?_⟩
        · exact List.append_assoc _ _ _
        · refine ⟨more, closing, rest, rfl, ?_⟩
          rw [List.reverse_cons, List.append_assoc]
          exact hgrows
  · rintro (⟨rfl, hgrows⟩ | ⟨rfl, p, _, rfl, more, closing, rest, rfl, hgrows⟩)
    · refine ⟨.nil, span, ts, rfl, ?_⟩
      rw [More.denote, ← List.reverse_cons]
      exact hgrows
    · refine ⟨.cons span p more, closing, rest, ?_, ?_⟩
      · rw [More.tokens, List.cons_append, List.append_assoc]
      · rw [List.reverse_cons, List.append_assoc] at hgrows
        exact hgrows

/-- A token after a complete operand goes on with what is around it. -/
theorem afterOperand_iff (hframes : ∀ bang outer, frames ≠ .negation bang :: outer) :
    Closes res frames e (t :: ts) ↔
      ∃ s, afterOperand e frames t = .ok s ∧ Continues res s ts := by
  obtain ⟨kind, span⟩ := t
  cases frames with
  | nil =>
      constructor
      · intro h
        cases h.1
      · rintro ⟨_, ⟨⟩, -⟩
  | cons frame frames =>
      cases frame with
      | negation bang => exact (hframes bang frames rfl).elim
      | group =>
          constructor
          · rintro ⟨closing, rest, hts, hgrows⟩
            cases hts
            exact ⟨_, rfl, hgrows⟩
          · rintro ⟨s, hs, hcontinues⟩
            cases kind <;> cases hs
            exact ⟨span, ts, rfl, hcontinues⟩
      | list bracket items =>
          refine collects_iff.trans ?_
          constructor
          · rintro (⟨rfl, hgrows⟩ | ⟨rfl, hitem⟩)
            · exact ⟨_, rfl, hgrows⟩
            · exact ⟨_, rfl, hitem⟩
          · rintro ⟨s, hs, hcontinues⟩
            cases kind <;> cases hs
            · exact Or.inr ⟨rfl, hcontinues⟩
            · exact Or.inl ⟨rfl, hcontinues⟩
      | arguments callee args =>
          refine collects_iff.trans ?_
          constructor
          · rintro (⟨rfl, hgrows⟩ | ⟨rfl, hitem⟩)
            · exact ⟨_, rfl, hgrows⟩
            · exact ⟨_, rfl, hitem⟩
          · rintro ⟨s, hs, hcontinues⟩
            cases kind <;> cases hs
            · exact Or.inr ⟨rfl, hcontinues⟩
            · exact Or.inl ⟨rfl, hcontinues⟩

theorem negate_ne_negation (e : Expr) (frames : List Frame) :
    ∀ bang outer, (negate e frames).2 ≠ .negation bang :: outer := by
  induction frames generalizing e with
  | nil => exact nofun
  | cons frame frames ih =>
      cases frame with
      | negation bang => exact ih _
      | group | list | arguments => exact nofun

/-- A token after an operand asks something of it, or goes on with what is around it. -/
theorem continueOperand_iff : Grows (Closes res frames) e (t :: ts) ↔
    ∃ s, continueOperand e frames t = .ok s ∧ Continues res s ts := by
  by_cases hdot : t.kind = .dot
  · obtain ⟨kind, span⟩ := t
    cases hdot
    constructor
    · rintro ⟨links, rest, hts, hcloses⟩
      refine ⟨.member e frames, rfl, ?_⟩
      cases links with
      | nil =>
          rw [Links.tokens, List.nil_append] at hts
          subst hts
          cases hcloses.ends
      | field dot word span' more =>
          cases hts
          exact ⟨word, span', _, rfl, Or.inl ⟨more, rest, rfl, hcloses⟩⟩
      | method dot word span' opening args closing more =>
          simp only [Links.tokens, List.cons_append, List.append_assoc] at hts
          cases hts
          exact ⟨word, span', _, rfl,
            Or.inr ⟨opening, args, closing, _, rfl, more, rest, rfl, hcloses⟩⟩
    · rintro ⟨_, ⟨⟩, word, span', _, rfl, (⟨more, rest, rfl, hcloses⟩ |
        ⟨opening, args, closing, _, rfl, more, rest, rfl, hcloses⟩)⟩
      · exact ⟨.field span word span' more, rest, rfl, hcloses⟩
      · refine ⟨.method span word span' opening args closing more, rest, ?_, hcloses⟩
        simp [Links.tokens]
  · have hafter : continueOperand e frames t =
        afterOperand (negate e frames).1 (negate e frames).2 t := by
      obtain ⟨kind, span⟩ := t
      cases kind with
      | dot => exact (hdot rfl).elim
      | _ => rfl
    rw [grows_iff_of_ne_dot hdot, closes_negate, hafter]
    exact afterOperand_iff (negate_ne_negation e frames)

/-! ## The reader -/

theorem closesAtOnce_iff {closer kind : TokenKind} {span : Span}
    (build : List Expr → Span → Expr) {after : Expr → List Token → Prop} :
    ClosesAtOnce closer build after (⟨kind, span⟩ :: ts) ↔
      kind = closer ∧ Grows after (build [] span) ts := by
  constructor
  · rintro ⟨closing, rest, hts, hgrows⟩
    cases hts
    exact ⟨rfl, hgrows⟩
  · rintro ⟨rfl, hgrows⟩
    exact ⟨span, ts, rfl, hgrows⟩

/-- A list or call that is closed at once has no items, and any other begins with one. -/
theorem opened_iff : Continues res (.opened frames) (t :: ts) ↔
    ∃ s, (State.opened frames).step t = .ok s ∧ Continues res s ts := by
  have hbegins (hempty : ¬ Empties res frames (t :: ts))
      (hstep : (State.opened frames).step t = beginOperand frames t) :
      Continues res (.opened frames) (t :: ts) ↔
        ∃ s, (State.opened frames).step t = .ok s ∧ Continues res s ts := by
    rw [hstep, ← beginOperand_iff]
    exact or_iff_left hempty
  have hcloses {s : State} (hderives : ¬ t.kind.Begins)
      (hstep : (State.opened frames).step t = .ok s)
      (hempty : Empties res frames (t :: ts) ↔ Continues res s ts) :
      Continues res (.opened frames) (t :: ts) ↔
        ∃ s, (State.opened frames).step t = .ok s ∧ Continues res s ts := by
    rw [hstep]
    refine (or_iff_right (not_derives_of_not_begins hderives)).trans (hempty.trans ?_)
    constructor
    · intro hcontinues
      exact ⟨s, rfl, hcontinues⟩
    · rintro ⟨_, ⟨⟩, hcontinues⟩
      exact hcontinues
  obtain ⟨kind, span⟩ := t
  match frames with
  | [] | .negation _ :: _ | .group :: _ | .list _ (_ :: _) :: _ | .arguments _ (_ :: _) :: _ =>
      exact hbegins id rfl
  | .list bracket [] :: frames =>
      have hempty : Empties res (.list bracket [] :: frames) (⟨kind, span⟩ :: ts) ↔
          kind = .closeBracket ∧ Grows (Closes res frames) (bracketed bracket [] span) ts :=
        closesAtOnce_iff (bracketed bracket)
      cases kind with
      | closeBracket => exact hcloses nofun rfl (hempty.trans (and_iff_right rfl))
      | _ => exact hbegins (fun h => by cases (hempty.1 h).1) rfl
  | .arguments callee [] :: frames =>
      have hempty : Empties res (.arguments callee [] :: frames) (⟨kind, span⟩ :: ts) ↔
          kind = .closeParen ∧ Grows (Closes res frames) (callee.apply [] span) ts :=
        closesAtOnce_iff fun args closing => callee.apply args closing
      cases kind with
      | closeParen => exact hcloses nofun rfl (hempty.trans (and_iff_right rfl))
      | _ => exact hbegins (fun h => by cases (hempty.1 h).1) rfl

/-- A name is called if a parenthesis comes next, and is an operand if not. -/
theorem named_iff {callee : Callee} : Calls res callee frames (t :: ts) ↔
    ∃ s, (State.named callee frames).step t = .ok s ∧ Continues res s ts := by
  obtain ⟨kind, span⟩ := t
  have hplain (hparen : kind ≠ .openParen)
      (hstep : (State.named callee frames).step ⟨kind, span⟩ =
        continueOperand callee.plain frames ⟨kind, span⟩) :
      Calls res callee frames (⟨kind, span⟩ :: ts) ↔
        ∃ s, (State.named callee frames).step ⟨kind, span⟩ = .ok s ∧ Continues res s ts := by
    rw [hstep, ← continueOperand_iff]
    refine or_iff_left ?_
    rintro ⟨opening, items, closing, rest, hts, -⟩
    cases hts
    exact hparen rfl
  cases kind with
  | openParen =>
      constructor
      · rintro (hgrows | ⟨opening, items, closing, rest, hts, hgrows⟩)
        · have hends := ((grows_iff_of_ne_dot (by nofun)).1 hgrows).ends
          cases hends
        · cases hts
          refine ⟨_, rfl, ?_⟩
          cases items with
          | none => exact Or.inr ⟨closing, rest, rfl, hgrows⟩
          | some first more =>
              refine Or.inl ⟨first, _, ?_, more, closing, rest, rfl, hgrows⟩
              rw [Items.tokens, List.append_assoc]
      · rintro ⟨_, ⟨⟩, (⟨first, _, rfl, more, closing, rest, rfl, hgrows⟩ |
          ⟨closing, rest, rfl, hgrows⟩)⟩
        · refine Or.inr ⟨span, .some first more, closing, rest, ?_, hgrows⟩
          rw [Items.tokens, List.append_assoc]
        · exact Or.inr ⟨span, .none, closing, rest, rfl, hgrows⟩
  | _ => exact hplain nofun rfl

/-- A step takes the first token off a continuation, and is possible only if there is one. -/
theorem State.step_iff (s : State) : Continues res s (t :: ts) ↔
    ∃ s', s.step t = .ok s' ∧ Continues res s' ts := by
  cases s with
  | operand frames => exact beginOperand_iff
  | opened frames => exact opened_iff
  | named callee frames => exact named_iff
  | member base frames =>
      obtain ⟨kind, span⟩ := t
      constructor
      · rintro ⟨word, span', rest, hts, hcalls⟩
        cases hts
        exact ⟨_, rfl, hcalls⟩
      · rintro ⟨s', hs, hcontinues⟩
        cases kind <;> cases hs
        exact ⟨_, span, ts, rfl, hcontinues⟩
  | complete e frames => exact continueOperand_iff

/-! ### The end -/

theorem grows_nil_iff : Grows (Closes res frames) e [] ↔
    (negate e frames).2 = [] ∧ res = (negate e frames).1 := by
  have hgrows : Grows (Closes res frames) e [] ↔ Closes res frames e [] := by
    constructor
    · rintro ⟨links, rest, hts, hcloses⟩
      obtain ⟨hlinks, rfl⟩ := List.append_eq_nil_iff.1 hts.symm
      cases links with
      | nil => exact hcloses
      | field | method => cases hlinks
    · exact grows_of
  rw [hgrows, closes_negate]
  cases hframes : (negate e frames).2 with
  | nil =>
      constructor
      · rintro ⟨-, hres⟩
        exact ⟨rfl, hres⟩
      · rintro ⟨-, hres⟩
        exact ⟨rfl, hres⟩
  | cons frame outer =>
      refine iff_of_false ?_ nofun
      cases frame with
      | negation bang => exact (negate_ne_negation e frames bang outer hframes).elim
      | group => rintro ⟨closing, rest, hts, -⟩; cases hts
      | list bracket items =>
          rintro ⟨more, closing, rest, hts, -⟩
          cases more <;> cases hts
      | arguments callee args =>
          rintro ⟨more, closing, rest, hts, -⟩
          cases more <;> cases hts

theorem not_derives_nil : ¬ Derives res frames [] := by
  rintro ⟨p, rest, hts, -⟩
  obtain ⟨t, ts, htokens, -⟩ := p.tokens_eq_cons
  rw [htokens] at hts
  cases hts

/-- The end comes where nothing has to. -/
theorem State.finish_iff (s : State) (stop : Token) :
    Continues res s [] ↔ s.finish stop = .ok res := by
  have hdone (e : Expr) (frames : List Frame) : Grows (Closes res frames) e [] ↔
      (State.complete e frames).finish stop = .ok res := by
    rw [grows_nil_iff, State.finish]
    dsimp only
    generalize negate e frames = found
    obtain ⟨e', frames'⟩ := found
    cases frames' with
    | nil =>
        constructor
        · rintro ⟨-, rfl⟩
          rfl
        · intro h
          cases h
          exact ⟨rfl, rfl⟩
    | cons frame outer => exact iff_of_false nofun nofun
  cases s with
  | operand frames => exact iff_of_false not_derives_nil nofun
  | opened frames =>
      refine iff_of_false ?_ nofun
      rintro (hderives | hempty)
      · exact not_derives_nil hderives
      · match frames, hempty with
        | .list _ [] :: _, ⟨_, _, hts, _⟩ => cases hts
        | .arguments _ [] :: _, ⟨_, _, hts, _⟩ => cases hts
  | named callee frames =>
      refine Iff.trans (or_iff_left ?_) (hdone callee.plain frames)
      rintro ⟨opening, items, closing, rest, hts, -⟩
      cases hts
  | member base frames =>
      refine iff_of_false ?_ nofun
      rintro ⟨word, span, rest, hts, -⟩
      cases hts
  | complete e frames => exact hdone e frames

/-- What is read is what the tokens continue. -/
theorem readFrom_iff (stop : Token) (ts : List Token) (s : State) :
    readFrom s stop ts = .ok res ↔ Continues res s ts := by
  induction ts generalizing s with
  | nil => exact (s.finish_iff stop).symm
  | cons t ts ih =>
      rw [readFrom, s.step_iff]
      cases s.step t with
      | error fault => exact iff_of_false nofun nofun
      | ok s' =>
          dsimp only
          rw [ih]
          constructor
          · intro hcontinues
            exact ⟨s', rfl, hcontinues⟩
          · rintro ⟨_, ⟨⟩, hcontinues⟩
            exact hcontinues

/-- What is read from all tokens is what a derivation of them denotes. -/
theorem ofTokens_iff {excerpt : Excerpt} :
    ofTokens excerpt ts = .ok res ↔ ∃ p : Phrase, p.tokens = ts ∧ p.denote = res := by
  rw [ofTokens, readFrom_iff]
  constructor
  · rintro ⟨p, _, rfl, rfl, rfl⟩
    exact ⟨p, (List.append_nil _).symm, rfl⟩
  · rintro ⟨p, rfl, rfl⟩
    exact ⟨p, [], (List.append_nil _).symm, rfl, rfl⟩

end TypedTemplate.Expr
