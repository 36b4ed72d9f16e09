/-
# `TypedTemplate.Proofs.Expr.Grammar` — derivations of expressions

    expr    := '!' expr | postfix
    postfix := primary ( '.' name [ '(' args ')' ] )*
    primary := literal | name [ '(' args ')' ] | '(' expr ')' | '[' [ args ] ']'
    args    := expr ( ',' expr )*

A derivation is a tree with a constructor for each alternative: a `Phrase` is an expression, an
`Atom` a primary, `Links` what comes after it, and `Items` what stands in brackets, with `More` of
them after commas.  A tree keeps the spans of all its tokens, parentheses and commas included, so
it says of a token sequence how it is derived (`Phrase.tokens`), and it denotes an expression
(`Phrase.denote`) in which a `!` takes all links of its operand and a group is what is in it.

Nothing can be derived in two ways (`Phrase.unique`): what an alternative begins with tells it from
the others, and a name is a call if and only if a parenthesis comes next.
-/
import TypedTemplate.Expr.Read

namespace TypedTemplate.Expr

/-! ## Trees -/

mutual

/-- An expression. -/
inductive Phrase where
  | negation (bang : Span) (operand : Phrase)
  | chain (atom : Atom) (links : Links)

/-- What the members of an expression are asked of. -/
inductive Atom where
  | literal (literal : Literal) (span : Span)
  | name (word : String) (span : Span)
  | call (word : String) (span opening : Span) (args : Items) (closing : Span)
  | group (opening : Span) (inner : Phrase) (closing : Span)
  | list (opening : Span) (items : Items) (closing : Span)

/-- The members that are asked for, one of what the other gives. -/
inductive Links where
  | nil
  | field (dot : Span) (word : String) (span : Span) (rest : Links)
  | method (dot : Span) (word : String) (span opening : Span) (args : Items) (closing : Span)
      (rest : Links)

/-- What stands in brackets. -/
inductive Items where
  | none
  | some (first : Phrase) (more : More)

/-- Further items, each after a comma. -/
inductive More where
  | nil
  | cons (comma : Span) (item : Phrase) (rest : More)

end

mutual

/-- The tokens that a derivation is of. -/
def Phrase.tokens : Phrase → List Token
  | .negation bang operand => ⟨.bang, bang⟩ :: operand.tokens
  | .chain atom links => atom.tokens ++ links.tokens
termination_by structural p => p

def Atom.tokens : Atom → List Token
  | .literal literal span => [⟨.literal literal, span⟩]
  | .name word span => [⟨.name word, span⟩]
  | .call word span opening args closing =>
    ⟨.name word, span⟩ :: ⟨.openParen, opening⟩ :: (args.tokens ++ [⟨.closeParen, closing⟩])
  | .group opening inner closing =>
    ⟨.openParen, opening⟩ :: (inner.tokens ++ [⟨.closeParen, closing⟩])
  | .list opening items closing =>
    ⟨.openBracket, opening⟩ :: (items.tokens ++ [⟨.closeBracket, closing⟩])
termination_by structural a => a

def Links.tokens : Links → List Token
  | .nil => []
  | .field dot word span rest => ⟨.dot, dot⟩ :: ⟨.name word, span⟩ :: rest.tokens
  | .method dot word span opening args closing rest =>
    ⟨.dot, dot⟩ :: ⟨.name word, span⟩ :: ⟨.openParen, opening⟩ ::
      (args.tokens ++ ⟨.closeParen, closing⟩ :: rest.tokens)
termination_by structural l => l

def Items.tokens : Items → List Token
  | .none => []
  | .some first more => first.tokens ++ more.tokens
termination_by structural items => items

def More.tokens : More → List Token
  | .nil => []
  | .cons comma item rest => ⟨.comma, comma⟩ :: (item.tokens ++ rest.tokens)
termination_by structural more => more

end

mutual

/-- The expression that a derivation denotes. -/
def Phrase.denote : Phrase → Expr
  | .negation bang operand => .negation operand.denote (bang.join operand.denote.span)
  | .chain atom links => links.denote atom.denote
termination_by structural p => p

def Atom.denote : Atom → Expr
  | .literal literal span => .constant literal span
  | .name word span => .ident word span
  | .call word span _ args closing => .rootCall word args.denote (span.join closing)
  | .group _ inner _ => inner.denote
  | .list opening items closing => .listing items.denote (opening.join closing)
termination_by structural a => a

/-- What is asked of `base` in the end. -/
def Links.denote : Links → Expr → Expr
  | .nil, base => base
  | .field _ word span rest, base => rest.denote (.fieldOf base word (base.span.join span))
  | .method _ word _ _ args closing rest, base =>
    rest.denote (.methodOf base word args.denote (base.span.join closing))
termination_by structural l => l

def Items.denote : Items → List Expr
  | .none => []
  | .some first more => first.denote :: more.denote
termination_by structural items => items

def More.denote : More → List Expr
  | .nil => []
  | .cons _ item rest => item.denote :: rest.denote
termination_by structural more => more

end

/-! ## What an alternative begins with -/

/-- An expression may begin with a token of this kind. -/
inductive TokenKind.Begins : TokenKind → Prop where
  | bang : Begins .bang
  | literal (literal : Literal) : Begins (.literal literal)
  | name (word : String) : Begins (.name word)
  | openParen : Begins .openParen
  | openBracket : Begins .openBracket

/-- A primary begins like an expression, but not with a `!`. -/
theorem Atom.tokens_eq_cons (a : Atom) :
    ∃ t ts, a.tokens = t :: ts ∧ t.kind.Begins ∧ t.kind ≠ .bang := by
  cases a with
  | literal literal span => exact ⟨_, _, rfl, .literal literal, nofun⟩
  | name word span => exact ⟨_, _, rfl, .name word, nofun⟩
  | call word span opening args closing => exact ⟨_, _, rfl, .name word, nofun⟩
  | group opening inner closing => exact ⟨_, _, rfl, .openParen, nofun⟩
  | list opening items closing => exact ⟨_, _, rfl, .openBracket, nofun⟩

theorem Phrase.tokens_eq_cons (p : Phrase) : ∃ t ts, p.tokens = t :: ts ∧ t.kind.Begins := by
  cases p with
  | negation bang operand => exact ⟨_, _, rfl, .bang⟩
  | chain atom links =>
      obtain ⟨t, ts, hts, hbegins, -⟩ := atom.tokens_eq_cons
      exact ⟨t, ts ++ links.tokens, by rw [tokens, hts, List.cons_append], hbegins⟩

/-! ## One derivation -/

variable {r r' : List Token}

/-- No arguments come next, so a name before `r` is not called. -/
def Uncalled (r : List Token) : Prop := ∀ t ts, r = t :: ts → t.kind ≠ .openParen

/-- Neither arguments nor a member come next, so an operand before `r` is complete. -/
def Unasked (r : List Token) : Prop := Uncalled r ∧ ∀ t ts, r = t :: ts → t.kind ≠ .dot

/-- A closing bracket comes next. -/
inductive Closed : List Token → Prop where
  | paren (closing : Span) (r : List Token) : Closed (⟨.closeParen, closing⟩ :: r)
  | bracket (closing : Span) (r : List Token) : Closed (⟨.closeBracket, closing⟩ :: r)

theorem unasked_nil : Unasked [] := ⟨nofun, nofun⟩

theorem Closed.unasked (h : Closed r) : Unasked r := by
  cases h with
  | paren | bracket =>
      constructor
      · rintro _ _ ⟨⟩
        nofun
      · rintro _ _ ⟨⟩
        nofun

theorem More.unasked (more : More) (h : Closed r) : Unasked (more.tokens ++ r) := by
  cases more with
  | nil => exact h.unasked
  | cons comma item rest =>
      constructor
      · rintro _ _ ⟨⟩
        nofun
      · rintro _ _ ⟨⟩
        nofun

theorem Links.uncalled (links : Links) (h : Unasked r) : Uncalled (links.tokens ++ r) := by
  cases links with
  | nil => exact h.1
  | field dot word span rest =>
      rintro _ _ ⟨⟩
      nofun
  | method dot word span opening args closing rest =>
      rintro _ _ ⟨⟩
      nofun

mutual

/-- Where nothing else can be asked, an expression ends in one place, and is derived in one way. -/
theorem Phrase.unique : ∀ {p p' : Phrase} {r r' : List Token}, Unasked r → Unasked r' →
    p.tokens ++ r = p'.tokens ++ r' → p = p' ∧ r = r'
  | .negation bang p, p', r, r', hr, hr', h => by
      cases p' with
      | negation bang' p' =>
          rw [Phrase.tokens, Phrase.tokens, List.cons_append, List.cons_append] at h
          obtain ⟨hbang, hrest⟩ := List.cons.inj h
          cases hbang
          obtain ⟨rfl, rfl⟩ := Phrase.unique hr hr' hrest
          exact ⟨rfl, rfl⟩
      | chain atom links =>
          obtain ⟨t, ts, hts, -, hbang⟩ := atom.tokens_eq_cons
          rw [Phrase.tokens, Phrase.tokens, hts] at h
          obtain ⟨rfl, -⟩ := List.cons.inj h
          exact (hbang rfl).elim
  | .chain atom links, p', r, r', hr, hr', h => by
      cases p' with
      | negation bang p' =>
          obtain ⟨t, ts, hts, -, hbang⟩ := atom.tokens_eq_cons
          rw [Phrase.tokens, Phrase.tokens, hts] at h
          obtain ⟨rfl, -⟩ := List.cons.inj h
          exact (hbang rfl).elim
      | chain atom' links' =>
          rw [Phrase.tokens, Phrase.tokens, List.append_assoc, List.append_assoc] at h
          obtain ⟨rfl, hlinks⟩ := Atom.unique (links.uncalled hr) (links'.uncalled hr') h
          obtain ⟨rfl, rfl⟩ := Links.unique hr hr' hlinks
          exact ⟨rfl, rfl⟩

theorem Atom.unique : ∀ {a a' : Atom} {r r' : List Token}, Uncalled r → Uncalled r' →
    a.tokens ++ r = a'.tokens ++ r' → a = a' ∧ r = r'
  | .literal literal span, a', r, r', hr, hr', h => by
      cases a' <;> simp [Atom.tokens] at h
      obtain ⟨⟨rfl, rfl⟩, rfl⟩ := h
      exact ⟨rfl, rfl⟩
  | .name word span, a', r, r', hr, hr', h => by
      cases a' <;> simp [Atom.tokens] at h
      · obtain ⟨⟨rfl, rfl⟩, rfl⟩ := h
        exact ⟨rfl, rfl⟩
      · obtain ⟨-, rfl⟩ := h
        exact (hr _ _ rfl rfl).elim
  | .call word span opening args closing, a', r, r', hr, hr', h => by
      cases a' <;> simp [Atom.tokens] at h
      · obtain ⟨-, rfl⟩ := h
        exact (hr' _ _ rfl rfl).elim
      · obtain ⟨⟨rfl, rfl⟩, rfl, hargs⟩ := h
        obtain ⟨rfl, hrest⟩ := Items.unique (.paren _ _) (.paren _ _) hargs
        cases hrest
        exact ⟨rfl, rfl⟩
  | .group opening inner closing, a', r, r', hr, hr', h => by
      cases a' <;> simp [Atom.tokens] at h
      obtain ⟨rfl, hinner⟩ := h
      obtain ⟨rfl, hrest⟩ :=
        Phrase.unique (Closed.paren _ _).unasked (Closed.paren _ _).unasked hinner
      cases hrest
      exact ⟨rfl, rfl⟩
  | .list opening items closing, a', r, r', hr, hr', h => by
      cases a' <;> simp [Atom.tokens] at h
      obtain ⟨rfl, hitems⟩ := h
      obtain ⟨rfl, hrest⟩ := Items.unique (.bracket _ _) (.bracket _ _) hitems
      cases hrest
      exact ⟨rfl, rfl⟩

theorem Links.unique : ∀ {l l' : Links} {r r' : List Token}, Unasked r → Unasked r' →
    l.tokens ++ r = l'.tokens ++ r' → l = l' ∧ r = r'
  | .nil, l', r, r', hr, hr', h => by
      cases l' with
      | nil => exact ⟨rfl, h⟩
      | field | method => exact (hr.2 _ _ h rfl).elim
  | .field dot word span rest, l', r, r', hr, hr', h => by
      cases l' <;> simp [Links.tokens] at h
      · exact (hr'.2 _ _ h.symm rfl).elim
      · obtain ⟨rfl, ⟨rfl, rfl⟩, hrest⟩ := h
        obtain ⟨rfl, rfl⟩ := Links.unique hr hr' hrest
        exact ⟨rfl, rfl⟩
      · exact (rest.uncalled hr _ _ h.2.2 rfl).elim
  | .method dot word span opening args closing rest, l', r, r', hr, hr', h => by
      cases l' <;> simp [Links.tokens] at h
      · exact (hr'.2 _ _ h.symm rfl).elim
      · exact (Links.uncalled _ hr' _ _ h.2.2.symm rfl).elim
      · obtain ⟨rfl, ⟨rfl, rfl⟩, rfl, hargs⟩ := h
        obtain ⟨rfl, hclosing⟩ := Items.unique (.paren _ _) (.paren _ _) hargs
        obtain ⟨hspan, hrest⟩ := List.cons.inj hclosing
        cases hspan
        obtain ⟨rfl, rfl⟩ := Links.unique hr hr' hrest
        exact ⟨rfl, rfl⟩

theorem Items.unique : ∀ {i i' : Items} {r r' : List Token}, Closed r → Closed r' →
    i.tokens ++ r = i'.tokens ++ r' → i = i' ∧ r = r'
  | .none, i', r, r', hr, hr', h => by
      cases i' with
      | none => exact ⟨rfl, h⟩
      | some first more =>
          obtain ⟨t, ts, hts, hbegins⟩ := first.tokens_eq_cons
          rw [Items.tokens, Items.tokens, hts] at h
          cases hr <;> cases h <;> cases hbegins
  | .some first more, i', r, r', hr, hr', h => by
      cases i' with
      | none =>
          obtain ⟨t, ts, hts, hbegins⟩ := first.tokens_eq_cons
          rw [Items.tokens, Items.tokens, hts] at h
          cases hr' <;> cases h <;> cases hbegins
      | some first' more' =>
          rw [Items.tokens, Items.tokens, List.append_assoc, List.append_assoc] at h
          obtain ⟨rfl, hmore⟩ := Phrase.unique (more.unasked hr) (more'.unasked hr') h
          obtain ⟨rfl, rfl⟩ := More.unique hr hr' hmore
          exact ⟨rfl, rfl⟩

theorem More.unique : ∀ {m m' : More} {r r' : List Token}, Closed r → Closed r' →
    m.tokens ++ r = m'.tokens ++ r' → m = m' ∧ r = r'
  | .nil, m', r, r', hr, hr', h => by
      cases m' with
      | nil => exact ⟨rfl, h⟩
      | cons comma item rest => cases hr <;> cases h
  | .cons comma item rest, m', r, r', hr, hr', h => by
      cases m' with
      | nil => cases hr' <;> cases h
      | cons comma' item' rest' =>
          simp only [More.tokens, List.cons_append, List.append_assoc] at h
          obtain ⟨hcomma, hitem⟩ := List.cons.inj h
          cases hcomma
          obtain ⟨rfl, hrest⟩ := Phrase.unique (rest.unasked hr) (rest'.unasked hr') hitem
          obtain ⟨rfl, rfl⟩ := More.unique hr hr' hrest
          exact ⟨rfl, rfl⟩

end

end TypedTemplate.Expr
