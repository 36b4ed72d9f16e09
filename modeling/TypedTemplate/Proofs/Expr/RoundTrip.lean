/-
# `TypedTemplate.Proofs.Expr.RoundTrip` — what is written is read

An expression in writing reads as the expression it was written from (`read_undoes_write`).  It may
have anything in it but floats, and names that could not be read as names (`isPrintable`).  `Written`
leaves each string the choice of its quotes, and `write` is the case in which all strings choose the
same.

A piece of writing is read as it should be if no digit or letter comes next, which would lengthen
its last token, and no point with a digit after it, which would make a fraction of a whole number
(`Follows`).  Writing sees to that: what follows an expression is a bracket, a comma or a point
with a name after it.  So each piece has a derivation wherever it stands (`Spells`), by induction on
the way it was written.
-/
import TypedTemplate.Proofs.Expr.Bare
import TypedTemplate.Proofs.Expr.Derivation
import TypedTemplate.Proofs.Expr.Lexeme
import TypedTemplate.Expr.Write

namespace TypedTemplate.Expr

open Text Markup

/-! ## Whole numbers -/

namespace Numeral

/-- A whole number as it is written. -/
def ofInt (i : Int) : Numeral := ⟨decide (i < 0), Nat.toDigits 10 i.natAbs, none⟩

theorem chars_ofInt (i : Int) : (ofInt i).chars = (toString i).toList := by
  rw [Int.toString_eq_repr, Int.repr_eq_if, chars, ofInt]
  dsimp only
  rw [List.append_nil]
  by_cases hneg : i < 0
  · have habs : (-i).toNat = i.natAbs := by omega
    rw [decide_eq_true hneg, if_pos rfl, if_neg (Int.not_le.2 hneg), habs, String.toList_append,
      Nat.toList_repr]
    rfl
  · have habs : i.toNat = i.natAbs := by omega
    rw [decide_eq_false hneg, if_neg Bool.false_ne_true, if_pos (Int.not_lt.1 hneg), habs,
      Nat.toList_repr]
    rfl

theorem literal_ofInt (i : Int64) : (ofInt i.toInt).literal? = some (.int i) := by
  have hdigits : ofDigits (Nat.toDigits 10 i.toInt.natAbs) = i.toInt.natAbs :=
    Nat.ofDigitChars_toDigits (by decide) (by decide)
  have hvalue : (if decide (i.toInt < 0) then -(i.toInt.natAbs : Int) else i.toInt.natAbs) =
      i.toInt := by
    by_cases hneg : i.toInt < 0
    · rw [decide_eq_true hneg, if_pos rfl]
      omega
    · rw [decide_eq_false hneg, if_neg Bool.false_ne_true]
      omega
  have hint : int64? (decide (i.toInt < 0)) (Nat.toDigits 10 i.toInt.natAbs) = some i := by
    unfold int64?
    dsimp only
    rw [hdigits, hvalue, if_pos ⟨i.minValue_le_toInt, i.toInt_le⟩, Int64.ofInt_toInt]
  exact congrArg (Option.map Literal.int) hint

end Numeral

/-! ## Strings -/

theorem quoted_escapeString (quote : Char) (cs : List Char) :
    Quoted quote (escapeString quote cs) := by
  induction cs with
  | nil => exact .nil
  | cons c cs ih =>
      rw [escapeString]
      split
      · exact .escape ih
      · rename_i hplain
        rw [not_or] at hplain
        exact .plain hplain.1 hplain.2 ih

/-- A backslash takes a quote or a backslash as it is. -/
theorem unquote_escapeString {quote : Char} (hquote : quote = '"' ∨ quote = '\'')
    (cs : List Char) : unquote (escapeString quote cs) = cs := by
  have hescaped {c : Char} (h : c = quote ∨ c = '\\') : escaped c = c := by
    rcases h with rfl | rfl
    · rcases hquote with rfl | rfl <;> rfl
    · rfl
  induction cs with
  | nil => rfl
  | cons c cs ih =>
      rw [escapeString]
      split
      · rename_i h
        rw [unquote, hescaped h, ih]
      · rename_i h
        rw [not_or] at h
        rw [unquote, ih]
        exact fun _ _ heq => absurd heq h.2

/-! ## What may come next -/

theorem not_isNameChar_of_mark : ∀ c ∈ marks, isNameChar c = false :=
  List.all_iff_forall_prop.1 (by decide +kernel)

theorem isNameChar_of_isDigit {c : Char} (h : c.isDigit = true) : isNameChar c = true := by
  obtain ⟨hlow, hhigh⟩ : 0x30 ≤ c.toNat ∧ c.toNat ≤ 0x39 := Char.isDigit_iff_toNat.1 h
  have hnumeric : isNumeric c = true := by
    unfold isNumeric inRanges numericRanges
    rw [Ranges.holds, if_neg (Nat.not_lt.2 hlow), decide_eq_true hhigh, Bool.true_or]
  rw [isNameChar, hnumeric, Bool.or_true, Bool.true_or]

/-- What comes next belongs neither to a name nor to a number. -/
structure Follows (rest : List Char) : Prop where
  apart : startsWhere isNameChar rest = false
  point : ∀ d more, rest = '.' :: d :: more → d.isDigit = false

namespace Follows

variable {c : Char} {cs rest : List Char}

theorem nil : Follows [] := ⟨rfl, nofun⟩

theorem mark {kind : TokenKind} (hmark : punctuation? c = some kind) (hpoint : kind ≠ .dot) :
    Follows (c :: cs) := by
  refine ⟨not_isNameChar_of_mark c (mem_marks hmark), ?_⟩
  rintro d more ⟨⟩
  exact absurd (Option.some.inj hmark).symm hpoint

/-- A point before a name. -/
theorem member (h : startsWhere isNameStart cs = true) : Follows ('.' :: cs) := by
  refine ⟨not_isNameChar_of_mark '.' (by decide), ?_⟩
  rintro d more ⟨⟩
  by_contra hdigit
  have hstart := isNameStart_of_isDigit (Bool.not_eq_false _ ▸ hdigit)
  exact absurd (hstart.symm.trans h) nofun

theorem not_digit (h : Follows rest) : startsWhere Char.isDigit rest = false := by
  cases rest with
  | nil => rfl
  | cons c cs =>
      refine Bool.eq_false_iff.2 fun hdigit => ?_
      exact absurd (h.apart.symm.trans (isNameChar_of_isDigit hdigit)) nofun

end Follows

/-! ## What can be written down -/

/-- A word that is read as a name. -/
def isName (w : String) : Bool :=
  startsWhere isNameStart w.toList && w.toList.tail.all isNameChar && w != "true" && w != "false"

mutual

/-- No floats, and every name is one that is read as a name. -/
def isPrintable : Expr → Bool
  | .constant literal _ => !(literal matches .float _)
  | .listing items _ => arePrintable items
  | .ident word _ => isName word
  | .rootCall method args _ => isName method && arePrintable args
  | .fieldOf base field _ => base.isPrintable && isName field
  | .methodOf base method args _ => base.isPrintable && isName method && arePrintable args
  | .negation operand _ => operand.isPrintable
termination_by structural e => e

def arePrintable : List Expr → Bool
  | [] => true
  | e :: es => e.isPrintable && arePrintable es
termination_by structural es => es

end

mutual

/-- An expression in writing, each string in quotes of its own choice. -/
inductive Written : Expr → List Char → Prop where
  | constant {quote : Char} {literal : Literal} {span : Span} : quote = '"' ∨ quote = '\'' →
      Written (.constant literal span) (literal.write quote)
  | listing {items : List Expr} {span : Span} {cs : List Char} : WrittenAll items cs →
      Written (.listing items span) ('[' :: (cs ++ [']']))
  | ident {word : String} {span : Span} : Written (.ident word span) word.toList
  | rootCall {method : String} {args : List Expr} {span : Span} {cs : List Char} :
      WrittenAll args cs →
      Written (.rootCall method args span) (method.toList ++ '(' :: (cs ++ [')']))
  | fieldOf {base : Expr} {field : String} {span : Span} {cs : List Char} : Written base cs →
      Written (.fieldOf base field span) (guarded base.isLoose cs ++ '.' :: field.toList)
  | methodOf {base : Expr} {method : String} {args : List Expr} {span : Span}
      {cs ds : List Char} : Written base cs → WrittenAll args ds →
      Written (.methodOf base method args span)
        (guarded base.isLoose cs ++ '.' :: method.toList ++ '(' :: (ds ++ [')']))
  | negation {operand : Expr} {span : Span} {cs : List Char} : Written operand cs →
      Written (.negation operand span) ('!' :: cs)

/-- Some expressions in writing, with commas between them. -/
inductive WrittenAll : List Expr → List Char → Prop where
  | nil : WrittenAll [] []
  | cons {e : Expr} {es : List Expr} {cs ds : List Char} : Written e cs → WrittenMore es ds →
      WrittenAll (e :: es) (cs ++ ds)

/-- Some further expressions in writing, each after a comma. -/
inductive WrittenMore : List Expr → List Char → Prop where
  | nil : WrittenMore [] []
  | cons {e : Expr} {es : List Expr} {cs ds : List Char} : Written e cs → WrittenMore es ds →
      WrittenMore (e :: es) (',' :: ' ' :: (cs ++ ds))

end

mutual

theorem written_write {quote : Char} (hquote : quote = '"' ∨ quote = '\'') :
    ∀ e : Expr, Written e (write quote e)
  | .constant _ _ => .constant hquote
  | .listing items _ => .listing (writtenAll_writeAll hquote items)
  | .ident _ _ => .ident
  | .rootCall _ args _ => .rootCall (writtenAll_writeAll hquote args)
  | .fieldOf base _ _ => .fieldOf (written_write hquote base)
  | .methodOf base _ args _ =>
    .methodOf (written_write hquote base) (writtenAll_writeAll hquote args)
  | .negation operand _ => .negation (written_write hquote operand)
termination_by structural e => e

theorem writtenAll_writeAll {quote : Char} (hquote : quote = '"' ∨ quote = '\'') :
    ∀ es : List Expr, WrittenAll es (writeAll quote es)
  | [] => .nil
  | e :: es => .cons (written_write hquote e) (writtenMore_writeMore hquote es)
termination_by structural es => es

theorem writtenMore_writeMore {quote : Char} (hquote : quote = '"' ∨ quote = '\'') :
    ∀ es : List Expr, WrittenMore es (writeMore quote es)
  | [] => .nil
  | e :: es => .cons (written_write hquote e) (writtenMore_writeMore hquote es)
termination_by structural es => es

end

/-! ## Tokens that end where they should -/

variable {pos : Nat} {rest : List Char}

theorem Literal.lexeme_write {quote : Char} (hquote : quote = '"' ∨ quote = '\'')
    {literal : Literal} (hliteral : ∀ x, literal ≠ .float x) (hrest : Follows rest) :
    Lexeme (literal.write quote) (.literal literal) rest := by
  cases literal with
  | bool b =>
      cases b with
      | true =>
          have hword : Lexeme ['t', 'r', 'u', 'e'] (word "true") rest :=
            .name (by decide +kernel) (List.all_iff_forall_prop.1 (by decide +kernel)) hrest.apart
          exact hword
      | false =>
          have hword : Lexeme ['f', 'a', 'l', 's', 'e'] (word "false") rest :=
            .name (by decide +kernel) (List.all_iff_forall_prop.1 (by decide +kernel)) hrest.apart
          exact hword
  | int i =>
      rw [write, Value.intText, ← Numeral.chars_ofInt]
      refine .number ⟨Nat.toDigits_ne_nil, ?_, nofun, nofun, hrest.not_digit, fun _ => hrest.point⟩
        (Numeral.literal_ofInt i)
      exact fun d hd => Nat.isDigit_of_mem_toDigits (by decide) (by decide) hd
  | float x => exact absurd rfl (hliteral x)
  | string s =>
      have hstring : Lexeme (quote :: (escapeString quote s.toList ++ [quote])) _ rest :=
        .string hquote (quoted_escapeString quote s.toList)
      rw [unquote_escapeString hquote, String.ofList_toList] at hstring
      exact hstring

/-- What a word that is read as a name looks like. -/
theorem exists_of_isName {w : String} (h : isName w = true) :
    ∃ c cs, w.toList = c :: cs ∧ isNameStart c = true ∧ (∀ d ∈ cs, isNameChar d = true) ∧
      word w = .name w := by
  simp only [isName, Bool.and_eq_true, List.all_eq_true, bne_iff_ne] at h
  obtain ⟨⟨⟨hstart, hchars⟩, htrue⟩, hfalse⟩ := h
  have hword : word w = .name w := by rw [word, if_neg htrue, if_neg hfalse]
  cases hw : w.toList with
  | nil =>
      rw [hw] at hstart
      cases hstart
  | cons c cs =>
      rw [hw] at hstart hchars
      exact ⟨c, cs, rfl, hstart, hchars, hword⟩

theorem startsWhere_of_isName {w : String} (h : isName w = true) (cs : List Char) :
    startsWhere isNameStart (w.toList ++ cs) = true := by
  obtain ⟨c, ds, hw, hstart, -⟩ := exists_of_isName h
  rw [hw]
  exact hstart

theorem lexeme_name {w : String} (h : isName w = true) (hrest : Follows rest) :
    Lexeme w.toList (.name w) rest := by
  obtain ⟨c, cs, hw, hstart, hchars, hword⟩ := exists_of_isName h
  have hname : Lexeme (c :: cs) (word (String.ofList (c :: cs))) rest :=
    .name hstart hchars hrest.apart
  rw [← hw, String.ofList_toList, hword] at hname
  exact hname

/-- A text in brackets. -/
theorem Gives.bracket {opener closer : Char} {opens closes : TokenKind} {cs : List Char}
    {ts : List Token} (hopens : punctuation? opener = some opens)
    (hcloses : punctuation? closer = some closes) (h : Gives (pos + 1) cs ts (closer :: rest)) :
    Gives pos (opener :: (cs ++ [closer]))
      (⟨opens, ⟨pos, 1⟩⟩ :: (ts ++ [⟨closes, ⟨pos + 1 + size cs, 1⟩⟩])) rest :=
  .mark hopens (h.append (.mark hcloses .nil))

/-! ## Members that are asked for at the end -/

namespace Links

/-- What is asked of an operand, and then of what that gives. -/
def append : Links → Links → Links
  | .nil, links => links
  | .field dot word span more, links => .field dot word span (more.append links)
  | .method dot word span opening args closing more, links =>
    .method dot word span opening args closing (more.append links)
termination_by structural links => links

theorem tokens_append : ∀ links links' : Links,
    (links.append links').tokens = links.tokens ++ links'.tokens
  | .nil, _ => rfl
  | .field dot word span more, links => by
      rw [append, tokens, tokens, tokens_append more links]
      rfl
  | .method dot word span opening args closing more, links => by
      rw [append, tokens, tokens, tokens_append more links]
      simp
termination_by structural links => links

theorem denote_append : ∀ (links links' : Links) (base : Expr),
    (links.append links').denote base = links'.denote (links.denote base)
  | .nil, _, _ => rfl
  | .field dot word span more, links, base => by
      rw [append, denote, denote, denote_append more links]
  | .method dot word span opening args closing more, links, base => by
      rw [append, denote, denote, denote_append more links]
termination_by structural links => links

end Links

/-! ## A derivation of what is written -/

/-- Wherever the text stands, and whatever follows it, it is an operand with members asked of it,
and denotes the expression. -/
def Chains (cs : List Char) (e : Expr) : Prop :=
  ∀ (pos : Nat) (rest : List Char), Follows rest → ∃ (atom : Atom) (links : Links),
    Gives pos cs (atom.tokens ++ links.tokens) rest ∧ (links.denote atom.denote).bare = e.bare

/-- The text has a derivation, which denotes the expression, and further members can be asked of it
if it is not loose. -/
def Spells (cs : List Char) (e : Expr) : Prop :=
  ∀ (pos : Nat) (rest : List Char), Follows rest → ∃ p : Phrase, Gives pos cs p.tokens rest ∧
    p.denote.bare = e.bare ∧ (e.isLoose = false → ∃ atom links, p = .chain atom links)

/-- The text of some expressions with commas between them. -/
def SpellsAll (cs : List Char) (es : List Expr) : Prop :=
  ∀ (pos : Nat) (rest : List Char), Follows rest → ∃ items : Items,
    Gives pos cs items.tokens rest ∧ bareAll items.denote = bareAll es

/-- The text of some further expressions, each after a comma. -/
def SpellsMore (cs : List Char) (es : List Expr) : Prop :=
  ∀ (pos : Nat) (rest : List Char), Follows rest → ∃ more : More,
    Gives pos cs more.tokens rest ∧ bareAll more.denote = bareAll es

section

variable {cs ds : List Char} {base e : Expr} {args es : List Expr} {w : String} {span : Span}

theorem Chains.spells (h : Chains cs e) : Spells cs e := by
  intro pos rest hrest
  obtain ⟨atom, links, hgives, hdenote⟩ := h pos rest hrest
  exact ⟨.chain atom links, hgives, hdenote, fun _ => ⟨atom, links, rfl⟩⟩

/-- Members can be asked of any expression, in parentheses if need be. -/
theorem Spells.guarded (h : Spells cs e) : Chains (guarded e.isLoose cs) e := by
  intro pos rest hrest
  cases hloose : e.isLoose with
  | true =>
      obtain ⟨p, hgives, hdenote, -⟩ := h (pos + 1) (')' :: rest) (.mark rfl nofun)
      refine ⟨.group ⟨pos, 1⟩ p ⟨pos + 1 + size cs, 1⟩, .nil, ?_, hdenote⟩
      rw [Links.tokens, List.append_nil]
      exact .bracket rfl rfl hgives
  | false =>
      obtain ⟨p, hgives, hdenote, hchain⟩ := h pos rest hrest
      obtain ⟨atom, links, rfl⟩ := hchain hloose
      exact ⟨atom, links, hgives, hdenote⟩

/-- A name and arguments in parentheses. -/
theorem SpellsAll.call (h : SpellsAll ds args) (hname : isName w = true) (pos : Nat)
    (rest : List Char) : ∃ (name opening : Span) (items : Items) (closing : Span),
      Gives pos (w.toList ++ '(' :: (ds ++ [')']))
        (⟨.name w, name⟩ :: ⟨.openParen, opening⟩ :: (items.tokens ++ [⟨.closeParen, closing⟩]))
        rest ∧ bareAll items.denote = bareAll args := by
  obtain ⟨items, hgives, hdenote⟩ :=
    h (pos + size w.toList + 1) (')' :: rest) (.mark rfl nofun)
  have hword : Gives pos w.toList [⟨.name w, .ofChars pos w.toList⟩]
      ('(' :: (ds ++ [')']) ++ rest) :=
    .lexeme (lexeme_name hname (.mark rfl nofun))
  exact ⟨_, _, items, _, hword.append (.bracket rfl rfl hgives), hdenote⟩

theorem Chains.constant {quote : Char} {literal : Literal} (hquote : quote = '"' ∨ quote = '\'')
    (h : ∀ x, literal ≠ .float x) : Chains (literal.write quote) (.constant literal span) := by
  intro pos rest hrest
  refine ⟨.literal literal (.ofChars pos (literal.write quote)), .nil, ?_, rfl⟩
  exact .lexeme (Literal.lexeme_write hquote h hrest)

theorem Chains.listing (h : SpellsAll cs es) :
    Chains ('[' :: (cs ++ [']'])) (.listing es span) := by
  intro pos rest hrest
  obtain ⟨items, hgives, hdenote⟩ := h (pos + 1) (']' :: rest) (.mark rfl nofun)
  refine ⟨.list ⟨pos, 1⟩ items ⟨pos + 1 + size cs, 1⟩, .nil, ?_, ?_⟩
  · rw [Links.tokens, List.append_nil]
    exact .bracket rfl rfl hgives
  · exact congrArg (Expr.listing · noSpan) hdenote

theorem Chains.ident (hname : isName w = true) : Chains w.toList (.ident w span) := by
  intro pos rest hrest
  refine ⟨.name w (.ofChars pos w.toList), .nil, ?_, rfl⟩
  exact .lexeme (lexeme_name hname hrest)

theorem Chains.rootCall (h : SpellsAll ds args) (hname : isName w = true) :
    Chains (w.toList ++ '(' :: (ds ++ [')'])) (.rootCall w args span) := by
  intro pos rest hrest
  obtain ⟨name, opening, items, closing, hgives, hdenote⟩ := h.call hname pos rest
  refine ⟨.call w name opening items closing, .nil, ?_, ?_⟩
  · rw [Links.tokens, List.append_nil]
    exact hgives
  · exact congrArg (Expr.rootCall w · noSpan) hdenote

theorem Chains.fieldOf (h : Chains cs base) (hname : isName w = true) :
    Chains (cs ++ '.' :: w.toList) (.fieldOf base w span) := by
  intro pos rest hrest
  obtain ⟨atom, links, hgives, hdenote⟩ := h pos _ (.member (startsWhere_of_isName hname rest))
  have hmember : Gives (pos + size cs) ('.' :: w.toList) _ rest :=
    .mark rfl (.lexeme (lexeme_name hname hrest))
  refine ⟨atom, links.append (.field ⟨pos + size cs, 1⟩ w
    (.ofChars (pos + size cs + 1) w.toList) .nil), ?_, ?_⟩
  · rw [Links.tokens_append, ← List.append_assoc]
    exact hgives.append hmember
  · rw [Links.denote_append]
    exact congrArg (Expr.fieldOf · w noSpan) hdenote

theorem Chains.methodOf (h : Chains cs base) (hargs : SpellsAll ds args) (hname : isName w = true) :
    Chains (cs ++ '.' :: w.toList ++ '(' :: (ds ++ [')'])) (.methodOf base w args span) := by
  intro pos rest hrest
  obtain ⟨atom, links, hgives, hdenote⟩ :=
    h pos _ (.member (startsWhere_of_isName hname ('(' :: (ds ++ [')']) ++ rest)))
  obtain ⟨name, opening, items, closing, hcall, hitems⟩ :=
    hargs.call hname (pos + size cs + 1) rest
  refine ⟨atom, links.append (.method ⟨pos + size cs, 1⟩ w name opening items closing .nil),
    ?_, ?_⟩
  · rw [Links.tokens_append, ← List.append_assoc, List.append_assoc cs]
    rw [← List.append_assoc] at hgives
    exact hgives.append (.mark rfl hcall)
  · rw [Links.denote_append]
    exact congrArg₂ (Expr.methodOf · w · noSpan) hdenote hitems

theorem Spells.negation (h : Spells cs e) : Spells ('!' :: cs) (.negation e span) := by
  intro pos rest hrest
  obtain ⟨p, hgives, hdenote, -⟩ := h (pos + 1) rest hrest
  refine ⟨.negation ⟨pos, 1⟩ p, .mark rfl hgives, ?_, nofun⟩
  exact congrArg (Expr.negation · noSpan) hdenote

theorem WrittenMore.follows (h : WrittenMore es ds) (hrest : Follows rest) :
    Follows (ds ++ rest) := by
  cases h with
  | nil => exact hrest
  | cons _ _ => exact .mark rfl nofun

theorem SpellsAll.cons (h : Spells cs e) (hmore : SpellsMore ds es) (hds : WrittenMore es ds) :
    SpellsAll (cs ++ ds) (e :: es) := by
  intro pos rest hrest
  obtain ⟨p, hgives, hdenote, -⟩ := h pos (ds ++ rest) (hds.follows hrest)
  obtain ⟨more, hmore, hdenotes⟩ := hmore (pos + size cs) rest hrest
  exact ⟨.some p more, hgives.append hmore, congrArg₂ List.cons hdenote hdenotes⟩

theorem SpellsMore.cons (h : Spells cs e) (hmore : SpellsMore ds es) (hds : WrittenMore es ds) :
    SpellsMore (',' :: ' ' :: (cs ++ ds)) (e :: es) := by
  intro pos rest hrest
  obtain ⟨p, hgives, hdenote, -⟩ := h (pos + 1 + 1) (ds ++ rest) (hds.follows hrest)
  obtain ⟨more, hmore, hdenotes⟩ := hmore (pos + 1 + 1 + size cs) rest hrest
  refine ⟨.cons ⟨pos, 1⟩ p more, ?_, congrArg₂ List.cons hdenote hdenotes⟩
  exact .mark rfl (.blank rfl (hgives.append hmore))

end

mutual

theorem Written.spells : ∀ {e : Expr} {cs : List Char}, Written e cs → e.isPrintable = true →
    Spells cs e
  | _, _, .constant hquote, h => by
      refine (Chains.constant hquote ?_).spells
      rintro x rfl
      cases h
  | _, _, .listing hitems, h => (Chains.listing (hitems.spells h)).spells
  | _, _, .ident, h => (Chains.ident h).spells
  | _, _, .rootCall hargs, h => by
      rw [isPrintable, Bool.and_eq_true] at h
      exact (Chains.rootCall (hargs.spells h.2) h.1).spells
  | _, _, .fieldOf hbase, h => by
      rw [isPrintable, Bool.and_eq_true] at h
      exact ((hbase.spells h.1).guarded.fieldOf h.2).spells
  | _, _, .methodOf hbase hargs, h => by
      rw [isPrintable, Bool.and_eq_true, Bool.and_eq_true] at h
      exact ((hbase.spells h.1.1).guarded.methodOf (hargs.spells h.2) h.1.2).spells
  | _, _, .negation hoperand, h => (hoperand.spells h).negation

theorem WrittenAll.spells : ∀ {es : List Expr} {cs : List Char}, WrittenAll es cs →
    arePrintable es = true → SpellsAll cs es
  | _, _, .nil, _ => fun _ _ _ => ⟨.none, .nil, rfl⟩
  | _, _, .cons hfirst hmore, h => by
      rw [arePrintable, Bool.and_eq_true] at h
      exact .cons (hfirst.spells h.1) (hmore.spells h.2) hmore

theorem WrittenMore.spells : ∀ {es : List Expr} {cs : List Char}, WrittenMore es cs →
    arePrintable es = true → SpellsMore cs es
  | _, _, .nil, _ => fun _ _ _ => ⟨.nil, .nil, rfl⟩
  | _, _, .cons hfirst hmore, h => by
      rw [arePrintable, Bool.and_eq_true] at h
      exact .cons (hfirst.spells h.1) (hmore.spells h.2) hmore

end

/-! ## Reading it back -/

theorem read_of_gives {p : Phrase} {cs : List Char} (h : Gives pos cs p.tokens []) :
    read ⟨pos, cs⟩ = .ok p.denote := by
  have htokens : tokens ⟨pos, cs⟩ = .ok p.tokens := h.tokensFrom_eq
  rw [read, htokens]
  exact ofTokens_iff.2 ⟨p, rfl, rfl⟩

/-- An expression in writing is read as the expression, up to spans, whichever of the two kinds of
quotes its strings are in; each string may be in quotes of its own choice. -/
theorem read_undoes_write {e : Expr} (he : e.isPrintable = true) (pos : Nat) :
    (∀ quote, quote = '"' ∨ quote = '\'' →
      ∃ x, read ⟨pos, write quote e⟩ = .ok x ∧ x.bare = e.bare) ∧
    ∀ cs, Written e cs → ∃ x, read ⟨pos, cs⟩ = .ok x ∧ x.bare = e.bare := by
  have hreads (cs : List Char) (hcs : Written e cs) :
      ∃ x, read ⟨pos, cs⟩ = .ok x ∧ x.bare = e.bare := by
    obtain ⟨p, hgives, hdenote, -⟩ := hcs.spells he pos [] .nil
    exact ⟨p.denote, read_of_gives hgives, hdenote⟩
  exact ⟨fun quote hquote => hreads _ (written_write hquote e), hreads⟩

namespace Questions

/-- The least number with a member asked of it, under a negation of which more is asked; strings
with quotes, a backslash and a line break in them; an empty list. -/
def largest : Expr :=
  let at0 : Span := ⟨0, 0⟩
  .negation (.methodOf
    (.negation (.fieldOf (.constant (.int (-9223372036854775808)) at0) "größe²" at0) at0)
    "_x" [.constant (.string "it's\\n\n\"") at0, .listing [] at0, .rootCall "now" [] at0] at0) at0

/-- The theorem at an expression that needs parentheses, escapes and a sign. -/
theorem read_undoes_write_largest :
    largest.isPrintable = true ∧
    write '\'' largest =
      "!(!-9223372036854775808.größe²)._x('it\\'s\\\\n\n\"', [], now())".toList ∧
    ∃ x, read ⟨7, write '\'' largest⟩ = .ok x ∧ x.bare = largest.bare := by
  have hprintable : largest.isPrintable = true := by decide +kernel
  refine ⟨hprintable, by decide +kernel, ?_⟩
  exact (read_undoes_write hprintable 7).1 '\'' (Or.inr rfl)

end Questions

end TypedTemplate.Expr
