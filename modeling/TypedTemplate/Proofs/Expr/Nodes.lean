/-
# `TypedTemplate.Proofs.Expr.Nodes` — the text of a part of an expression

Every node of an expression has a span, and the characters under it are again an expression, the
same one: reading them gives back the node (`read_nodes`).  There is one exception.  A group leaves
no node behind, so what is in it keeps its own span, without the parentheses; and what is made
from a group by asking it for a member, or by a negation that ends with it, is the join of such a
span with another one.  Then one of the two parentheses is covered and the other one is not
(`Phrase.cutsGroup`), and the characters are no expression at all.

Which parentheses are left out on either side is read off the derivation (`Phrase.lead`,
`Phrase.trail`); what lies between them, `Phrase.covered`, is just what the span covers
(`Phrase.bounds`).  As parentheses are balanced in everything that can be derived, a part that
lacks them on one side only cannot be.
-/
import TypedTemplate.Proofs.Expr.Derivation
import TypedTemplate.Proofs.Expr.Layout
import TypedTemplate.Proofs.Expr.RoundTrip
import TypedTemplate.Proofs.Expr.Viable

namespace TypedTemplate

mutual

/-- An expression and all that are parts of it. -/
def Expr.nodes : Expr → List Expr
  | .constant literal span => [.constant literal span]
  | .listing items span => .listing items span :: Expr.nodesAll items
  | .ident word span => [.ident word span]
  | .rootCall method args span => .rootCall method args span :: Expr.nodesAll args
  | .fieldOf base field span => .fieldOf base field span :: base.nodes
  | .methodOf base method args span =>
    .methodOf base method args span :: (base.nodes ++ Expr.nodesAll args)
  | .negation operand span => .negation operand span :: operand.nodes
termination_by structural e => e

/-- Some expressions and all that are parts of them. -/
def Expr.nodesAll : List Expr → List Expr
  | [] => []
  | e :: es => e.nodes ++ Expr.nodesAll es
termination_by structural es => es

end

theorem Expr.mem_nodes_self (e : Expr) : e ∈ e.nodes := by
  cases e <;> rw [nodes] <;> exact List.mem_cons_self

namespace Expr

open Text (size slice?)

/-! ## Groups -/

/-- The expression ends with a group, and nothing is asked of that. -/
def Phrase.endsInGroup : Phrase → Bool
  | .negation _ operand => operand.endsInGroup
  | .chain (.group _ _ _) .nil => true
  | .chain _ _ => false
termination_by structural p => p

/-- One parenthesis of a group is covered by the span of the expression and the other is not: a
member is asked of the group, or a negation ends with it. -/
def Phrase.cutsGroup : Phrase → Bool
  | .negation _ operand => operand.endsInGroup
  | .chain (.group _ inner _) .nil => inner.cutsGroup
  | .chain (.group _ _ _) _ => true
  | .chain _ _ => false
termination_by structural p => p

/-- The expression is in parentheses, so it denotes what is in them. -/
def Phrase.isGroup : Phrase → Bool
  | .chain (.group _ _ _) .nil => true
  | _ => false

/-! ## What a span covers -/

mutual

/-- The parentheses before what the span of an expression covers. -/
def Phrase.lead : Phrase → List Token
  | .negation _ _ => []
  | .chain atom _ => atom.lead
termination_by structural p => p

def Atom.lead : Atom → List Token
  | .group opening inner _ => ⟨.openParen, opening⟩ :: inner.lead
  | _ => []
termination_by structural a => a

end

mutual

/-- The parentheses after what the span of an expression covers. -/
def Phrase.trail : Phrase → List Token
  | .negation _ operand => operand.trail
  | .chain atom .nil => atom.trail
  | .chain _ _ => []
termination_by structural p => p

def Atom.trail : Atom → List Token
  | .group _ inner closing => inner.trail ++ [⟨.closeParen, closing⟩]
  | _ => []
termination_by structural a => a

end

mutual

/-- The tokens that the span of an expression covers. -/
def Phrase.covered : Phrase → List Token
  | .negation bang operand => ⟨.bang, bang⟩ :: (operand.lead ++ operand.covered)
  | .chain atom .nil => atom.covered
  | .chain atom links => atom.covered ++ (atom.trail ++ links.tokens)
termination_by structural p => p

def Atom.covered : Atom → List Token
  | .group _ inner _ => inner.covered
  | atom => atom.tokens
termination_by structural a => a

end

mutual

theorem Phrase.tokens_eq : ∀ p : Phrase, p.tokens = p.lead ++ (p.covered ++ p.trail)
  | .negation bang operand => by
      rw [Phrase.tokens, Phrase.tokens_eq operand]
      simp [Phrase.lead, Phrase.covered, Phrase.trail]
  | .chain atom links => by
      rw [Phrase.tokens, Atom.tokens_eq atom]
      cases links <;> simp [Phrase.lead, Phrase.covered, Phrase.trail, Links.tokens]

theorem Atom.tokens_eq : ∀ a : Atom, a.tokens = a.lead ++ (a.covered ++ a.trail)
  | .group opening inner closing => by
      rw [Atom.tokens, Phrase.tokens_eq inner]
      simp [Atom.lead, Atom.covered, Atom.trail]
  | .literal _ _ => by simp [Atom.lead, Atom.covered, Atom.trail]
  | .name _ _ => by simp [Atom.lead, Atom.covered, Atom.trail]
  | .call _ _ _ _ _ => by simp [Atom.lead, Atom.covered, Atom.trail]
  | .list _ _ _ => by simp [Atom.lead, Atom.covered, Atom.trail]

end

/-- The span goes from the first of the tokens to the last of them. -/
def Bounds (ts : List Token) (s : Span) : Prop := ∃ first last,
  ts.head? = some first ∧ ts.getLast? = some last ∧ s.start = first.span.start ∧
    s.stop = last.span.stop

/-- Tokens that stand one after the other. -/
def Ordered (ts : List Token) : Prop := ts.Pairwise fun a b => a.span.stop ≤ b.span.start

theorem bounds_singleton (kind : TokenKind) (s : Span) : Bounds [⟨kind, s⟩] s :=
  ⟨_, _, rfl, rfl, rfl, rfl⟩

/-- The join of the spans of two runs of tokens is that of all tokens from one to the other. -/
theorem Bounds.join {ts mid us : List Token} {s s' : Span} (h : Bounds ts s) (h' : Bounds us s')
    (hordered : Ordered (ts ++ (mid ++ us))) : Bounds (ts ++ (mid ++ us)) (s.join s') := by
  obtain ⟨first, last, hfirst, hlast, hstart, hstop⟩ := h
  obtain ⟨first', last', hfirst', hlast', hstart', hstop'⟩ := h'
  obtain ⟨-, -, hbefore⟩ := List.pairwise_append.1 hordered
  have hle {a b : Token} (ha : a ∈ ts) (hb : b ∈ us) : a.span.stop ≤ b.span.start :=
    hbefore a ha b (List.mem_append_right mid hb)
  have hstarts := hle (List.mem_of_head? hfirst) (List.mem_of_head? hfirst')
  have hstops := hle (List.mem_of_getLast? hlast) (List.mem_of_getLast? hlast')
  have hlength (s : Span) : s.start ≤ s.stop := Nat.le_add_right s.start s.length
  refine ⟨first, last', ?_, ?_, ?_, ?_⟩
  · rw [List.head?_append, hfirst]
    rfl
  · rw [List.getLast?_append, List.getLast?_append, hlast']
    rfl
  · rw [← hstart]
    refine Nat.min_eq_left ?_
    rw [hstart, hstart']
    exact (hlength first.span).trans hstarts
  · rw [Span.stop_join, ← hstop']
    refine Nat.max_eq_right ?_
    rw [hstop, hstop']
    exact hstops.trans (hlength last'.span)

/-- Members that are asked for reach up to the end of the last of them. -/
theorem Links.bounds : ∀ {links : Links} {base : Expr} {ts gap : List Token}, links ≠ .nil →
    Bounds ts base.span → Ordered (ts ++ (gap ++ links.tokens)) →
      Bounds (ts ++ (gap ++ links.tokens)) (links.denote base).span
  | .nil, _, _, _, hne, _, _ => (hne rfl).elim
  | .field dot word span rest, base, ts, gap, _, hbase, hordered => by
      have htokens : ts ++ (gap ++ (Links.field dot word span rest).tokens) =
          ts ++ (gap ++ [⟨.dot, dot⟩] ++ [⟨.name word, span⟩]) ++ ([] ++ rest.tokens) := by
        simp [Links.tokens]
      rw [htokens] at hordered ⊢
      have hfield := hbase.join (bounds_singleton (.name word) span)
        (List.pairwise_append.1 hordered).1
      rw [Links.denote]
      cases rest with
      | nil =>
          rw [Links.denote, Links.tokens, List.append_nil, List.append_nil]
          exact hfield
      | field | method =>
          refine Links.bounds ?_ hfield hordered
          rintro ⟨⟩
  | .method dot word span opening args closing rest, base, ts, gap, _, hbase, hordered => by
      have htokens : ts ++ (gap ++ (Links.method dot word span opening args closing rest).tokens) =
          ts ++ (gap ++ [⟨.dot, dot⟩] ++ [⟨.name word, span⟩] ++ [⟨.openParen, opening⟩] ++
            args.tokens ++ [⟨.closeParen, closing⟩]) ++ ([] ++ rest.tokens) := by
        simp [Links.tokens]
      rw [htokens] at hordered ⊢
      have hmethod := hbase.join (bounds_singleton .closeParen closing)
        (List.pairwise_append.1 hordered).1
      rw [Links.denote]
      cases rest with
      | nil =>
          rw [Links.denote, Links.tokens, List.append_nil, List.append_nil]
          exact hmethod
      | field | method =>
          refine Links.bounds ?_ hmethod hordered
          rintro ⟨⟩

mutual

/-- The span of an expression covers what is between the parentheses around it. -/
theorem Phrase.bounds : ∀ {p : Phrase}, Ordered p.tokens → Bounds p.covered p.denote.span
  | .negation bang operand, hordered => by
      have hsub : Ordered operand.tokens := (List.pairwise_cons.1 hordered).2
      have hcovered : (Phrase.negation bang operand).covered.Sublist
          (Phrase.negation bang operand).tokens := by
        rw [Phrase.covered, Phrase.tokens, operand.tokens_eq, ← List.append_assoc operand.lead]
        exact (List.sublist_append_left _ _).cons_cons _
      exact (bounds_singleton .bang bang).join (Phrase.bounds hsub) (hordered.sublist hcovered)
  | .chain atom links, hordered => by
      have hatom := Atom.bounds (List.pairwise_append.1 hordered).1
      cases links with
      | nil => exact hatom
      | field | method =>
          refine Links.bounds nofun hatom (hordered.sublist ?_)
          rw [Phrase.tokens, atom.tokens_eq, List.append_assoc, List.append_assoc]
          exact List.sublist_append_right _ _

theorem Atom.bounds : ∀ {a : Atom}, Ordered a.tokens → Bounds a.covered a.denote.span
  | .literal literal span, _ => bounds_singleton _ span
  | .name word span, _ => bounds_singleton _ span
  | .call word span opening args closing, hordered => by
      rw [Atom.tokens, ← List.cons_append, ← List.singleton_append] at hordered
      exact (bounds_singleton (.name word) span).join (bounds_singleton .closeParen closing) hordered
  | .group opening inner closing, hordered => by
      have hinner : inner.tokens.Sublist (Atom.group opening inner closing).tokens :=
        (List.sublist_append_left _ _).cons _
      exact Phrase.bounds (hordered.sublist hinner)
  | .list opening items closing, hordered => by
      rw [Atom.tokens, ← List.singleton_append] at hordered
      exact (bounds_singleton .openBracket opening).join (bounds_singleton .closeBracket closing)
        hordered

end

/-! ## Parentheses -/

/-- The number of opening parentheses. -/
def opens (ts : List Token) : Nat := ts.countP fun t => t.kind matches .openParen

/-- The number of closing parentheses. -/
def closes (ts : List Token) : Nat := ts.countP fun t => t.kind matches .closeParen

mutual

/-- Whatever can be derived closes the parentheses that it opens. -/
theorem Phrase.balanced : ∀ p : Phrase, opens p.tokens = closes p.tokens
  | .negation bang operand => by
      have hoperand := Phrase.balanced operand
      simpa [Phrase.tokens, opens, closes] using hoperand
  | .chain atom links => by
      have hatom := Atom.balanced atom
      have hlinks := Links.balanced links
      simp [Phrase.tokens, opens, closes] at hatom hlinks ⊢
      omega

theorem Atom.balanced : ∀ a : Atom, opens a.tokens = closes a.tokens
  | .literal literal span => rfl
  | .name word span => rfl
  | .call word span opening args closing => by
      have hargs := Items.balanced args
      simpa [Atom.tokens, opens, closes] using hargs
  | .group opening inner closing => by
      have hinner := Phrase.balanced inner
      simpa [Atom.tokens, opens, closes] using hinner
  | .list opening items closing => by
      have hitems := Items.balanced items
      simpa [Atom.tokens, opens, closes] using hitems

theorem Links.balanced : ∀ l : Links, opens l.tokens = closes l.tokens
  | .nil => rfl
  | .field dot word span rest => by
      have hrest := Links.balanced rest
      simpa [Links.tokens, opens, closes] using hrest
  | .method dot word span opening args closing rest => by
      have hargs := Items.balanced args
      have hrest := Links.balanced rest
      simp [Links.tokens, opens, closes] at hargs hrest ⊢
      omega

theorem Items.balanced : ∀ i : Items, opens i.tokens = closes i.tokens
  | .none => rfl
  | .some first more => by
      have hfirst := Phrase.balanced first
      have hmore := More.balanced more
      simp [Items.tokens, opens, closes] at hfirst hmore ⊢
      omega

theorem More.balanced : ∀ m : More, opens m.tokens = closes m.tokens
  | .nil => rfl
  | .cons comma item rest => by
      have hitem := Phrase.balanced item
      have hrest := More.balanced rest
      simp [More.tokens, opens, closes] at hitem hrest ⊢
      omega

end

mutual

theorem Phrase.opens_lead : ∀ p : Phrase, opens p.lead = p.lead.length ∧ closes p.lead = 0
  | .negation _ _ => ⟨rfl, rfl⟩
  | .chain atom _ => Atom.opens_lead atom

theorem Atom.opens_lead : ∀ a : Atom, opens a.lead = a.lead.length ∧ closes a.lead = 0
  | .group _ inner _ => by
      have hinner := Phrase.opens_lead inner
      simpa [Atom.lead, opens, closes] using hinner
  | .literal _ _ | .name _ _ | .call _ _ _ _ _ | .list _ _ _ => ⟨rfl, rfl⟩

end

mutual

theorem Phrase.closes_trail : ∀ p : Phrase, opens p.trail = 0 ∧ closes p.trail = p.trail.length
  | .negation _ operand => Phrase.closes_trail operand
  | .chain atom .nil => Atom.closes_trail atom
  | .chain _ (.field _ _ _ _) | .chain _ (.method _ _ _ _ _ _ _) => ⟨rfl, rfl⟩

theorem Atom.closes_trail : ∀ a : Atom, opens a.trail = 0 ∧ closes a.trail = a.trail.length
  | .group _ inner _ => by
      have hinner := Phrase.closes_trail inner
      simpa [Atom.trail, opens, closes] using hinner
  | .literal _ _ | .name _ _ | .call _ _ _ _ _ | .list _ _ _ => ⟨rfl, rfl⟩

end

/-- The parentheses left out on the one side are as many as on the other one if what is left is
balanced. -/
theorem Phrase.length_lead_trail {p : Phrase} (h : opens p.covered = closes p.covered) :
    p.lead.length = p.trail.length := by
  have hbalanced := p.balanced
  obtain ⟨hopens, hcloses⟩ := p.opens_lead
  obtain ⟨hopens', hcloses'⟩ := p.closes_trail
  rw [p.tokens_eq] at hbalanced
  simp only [opens, closes, List.countP_append] at *
  omega

theorem Phrase.trail_eq_nil : ∀ p : Phrase, p.trail = [] ↔ p.endsInGroup = false
  | .negation _ operand => Phrase.trail_eq_nil operand
  | .chain atom links => by
      cases atom <;> cases links <;> simp [Phrase.trail, Phrase.endsInGroup, Atom.trail]

/-- Where no parenthesis is cut off from its partner, none is left out. -/
theorem Phrase.lead_trail {p : Phrase} (hgroup : p.isGroup = false) :
    (p.cutsGroup = false → p.lead = [] ∧ p.trail = []) ∧
      (p.cutsGroup = true → p.lead.length ≠ p.trail.length) := by
  cases p with
  | negation bang operand =>
      constructor
      · intro hcut
        exact ⟨rfl, operand.trail_eq_nil.2 hcut⟩
      · intro hcut hlength
        have hends := operand.trail_eq_nil.1 (List.eq_nil_of_length_eq_zero hlength.symm)
        exact absurd (hends.symm.trans hcut) Bool.false_ne_true
  | chain atom links =>
      cases atom <;> cases links <;>
        simp [Phrase.isGroup, Phrase.cutsGroup, Phrase.lead, Phrase.trail, Atom.lead, Atom.trail] at *

/-! ## Nodes -/

/-- A node of `e` is what some of its tokens denote that are not just a group. -/
def IsPart (ts : List Token) (n : Expr) : Prop :=
  ∃ q : Phrase, q.denote = n ∧ q.isGroup = false ∧ q.tokens <:+: ts

theorem IsPart.mono {ts us : List Token} {n : Expr} (h : IsPart ts n) (hts : ts <:+: us) :
    IsPart us n := by
  obtain ⟨q, hdenote, hgroup, htokens⟩ := h
  exact ⟨q, hdenote, hgroup, htokens.trans hts⟩

/-- A chain is a node as soon as a member is asked for. -/
theorem isPart_chain {atom : Atom} {done link : Links} {ts : List Token} (hlink : link ≠ .nil)
    (hts : atom.tokens ++ (done.tokens ++ link.tokens) <:+: ts) :
    IsPart ts (link.denote (done.denote atom.denote)) := by
  refine ⟨.chain atom (done.append link), Links.denote_append done link _, ?_, ?_⟩
  · cases atom <;> cases done <;> cases link <;> first | rfl | exact (hlink rfl).elim
  · rwa [Phrase.tokens, Links.tokens_append]

mutual

/-- Every node of what an expression denotes is denoted by a part of it. -/
theorem Phrase.nodes_part : ∀ p : Phrase, ∀ n ∈ p.denote.nodes, IsPart p.tokens n
  | .negation bang operand, n, hn => by
      rw [Phrase.denote, nodes] at hn
      rcases List.mem_cons.1 hn with rfl | hn
      · exact ⟨.negation bang operand, rfl, rfl, List.infix_rfl⟩
      · exact (Phrase.nodes_part operand n hn).mono (List.suffix_cons _ _).isInfix
  | .chain atom links, n, hn =>
      Links.nodes_part links atom .nil List.infix_rfl
        (fun m hm => (Atom.nodes_part atom m hm).mono (List.prefix_append _ _).isInfix) n hn

theorem Atom.nodes_part : ∀ a : Atom, ∀ n ∈ a.denote.nodes, IsPart a.tokens n
  | .literal literal span, n, hn => by
      cases List.mem_singleton.1 hn
      exact ⟨.chain (.literal literal span) .nil, rfl, rfl, List.infix_rfl⟩
  | .name word span, n, hn => by
      cases List.mem_singleton.1 hn
      exact ⟨.chain (.name word span) .nil, rfl, rfl, List.infix_rfl⟩
  | .call word span opening args closing, n, hn => by
      rw [Atom.denote, nodes] at hn
      rcases List.mem_cons.1 hn with rfl | hn
      · exact ⟨.chain (.call word span opening args closing) .nil, rfl, rfl, [], [], by
          simp [Phrase.tokens, Links.tokens]⟩
      · exact (Items.nodes_part args n hn).mono
          ⟨[⟨.name word, span⟩, ⟨.openParen, opening⟩], [⟨.closeParen, closing⟩], by
            simp [Atom.tokens]⟩
  | .group opening inner closing, n, hn =>
      (Phrase.nodes_part inner n hn).mono ⟨[⟨.openParen, opening⟩], [⟨.closeParen, closing⟩], by
        simp [Atom.tokens]⟩
  | .list opening items closing, n, hn => by
      rw [Atom.denote, nodes] at hn
      rcases List.mem_cons.1 hn with rfl | hn
      · exact ⟨.chain (.list opening items closing) .nil, rfl, rfl, [], [], by
          simp [Phrase.tokens, Links.tokens]⟩
      · exact (Items.nodes_part items n hn).mono
          ⟨[⟨.openBracket, opening⟩], [⟨.closeBracket, closing⟩], by simp [Atom.tokens]⟩

/-- What is asked of a chain adds nodes to those of the chain. -/
theorem Links.nodes_part : ∀ (links : Links) (atom : Atom) (done : Links) {ts : List Token},
    atom.tokens ++ (done.tokens ++ links.tokens) <:+: ts →
      (∀ n ∈ (done.denote atom.denote).nodes, IsPart ts n) →
        ∀ n ∈ (links.denote (done.denote atom.denote)).nodes, IsPart ts n
  | .nil, _, _, _, _, hbase, n, hn => hbase n hn
  | .field dot word span rest, atom, done, ts, hts, hbase, n, hn => by
      have htokens : done.tokens ++ (Links.field dot word span rest).tokens =
          done.tokens ++ (Links.field dot word span .nil).tokens ++ rest.tokens := by
        simp [Links.tokens]
      rw [htokens] at hts
      have hself : IsPart ts ((Links.field dot word span .nil).denote (done.denote atom.denote)) :=
        isPart_chain nofun
          ((List.prefix_append _ _).isInfix.trans (by rwa [← List.append_assoc] at hts))
      refine Links.nodes_part rest atom (done.append (.field dot word span .nil)) ?_ ?_ n ?_
      · rwa [Links.tokens_append]
      · rw [Links.denote_append]
        exact List.forall_mem_cons.2 ⟨hself, hbase⟩
      · rwa [Links.denote_append]
  | .method dot word span opening args closing rest, atom, done, ts, hts, hbase, n, hn => by
      have htokens : done.tokens ++ (Links.method dot word span opening args closing rest).tokens =
          done.tokens ++ (Links.method dot word span opening args closing .nil).tokens ++
            rest.tokens := by
        simp [Links.tokens]
      rw [htokens] at hts
      have hself : IsPart ts ((Links.method dot word span opening args closing .nil).denote
          (done.denote atom.denote)) :=
        isPart_chain nofun
          ((List.prefix_append _ _).isInfix.trans (by rwa [← List.append_assoc] at hts))
      have hargs : args.tokens <:+: ts := by
        refine List.IsInfix.trans ⟨atom.tokens ++ (done.tokens ++
          [⟨.dot, dot⟩, ⟨.name word, span⟩, ⟨.openParen, opening⟩]),
          ⟨.closeParen, closing⟩ :: rest.tokens, ?_⟩ hts
        simp [Links.tokens]
      refine Links.nodes_part rest atom
        (done.append (.method dot word span opening args closing .nil)) ?_ ?_ n ?_
      · rwa [Links.tokens_append]
      · rw [Links.denote_append]
        refine List.forall_mem_cons.2 ⟨hself, fun m hm => ?_⟩
        rcases List.mem_append.1 hm with hm | hm
        · exact hbase m hm
        · exact (Items.nodes_part args m hm).mono hargs
      · rwa [Links.denote_append]

theorem Items.nodes_part : ∀ items : Items, ∀ n ∈ nodesAll items.denote, IsPart items.tokens n
  | .none, n, hn => nomatch hn
  | .some first more, n, hn => by
      rcases List.mem_append.1 hn with hn | hn
      · exact (Phrase.nodes_part first n hn).mono (List.prefix_append _ _).isInfix
      · exact (More.nodes_part more n hn).mono (List.suffix_append _ _).isInfix

theorem More.nodes_part : ∀ more : More, ∀ n ∈ nodesAll more.denote, IsPart more.tokens n
  | .nil, n, hn => nomatch hn
  | .cons comma item rest, n, hn => by
      rcases List.mem_append.1 hn with hn | hn
      · exact (Phrase.nodes_part item n hn).mono ⟨[⟨.comma, comma⟩], rest.tokens, by
          simp [More.tokens]⟩
      · exact (More.nodes_part rest n hn).mono ⟨⟨.comma, comma⟩ :: item.tokens, [], by
          simp [More.tokens]⟩

end

/-! ## Reading a node again -/

/-- The span of a part covers whole tokens, all but the parentheses that are left out. -/
theorem tokens_part {e : Excerpt} {ts : List Token} (hts : tokens e = .ok ts) {q : Phrase}
    (hq : q.tokens <:+: ts) : ∃ taken, e.Covers q.denote.span taken ∧
      tokens ⟨q.denote.span.start, taken⟩ = .ok q.covered := by
  obtain ⟨before, after, rfl⟩ := hq
  have hlaid := tokens_eq_ok.1 hts
  have hordered : Ordered q.tokens :=
    (List.pairwise_append.1 (List.pairwise_append.1 hlaid.ordered.2).1).2.1
  obtain ⟨first, last, hfirst, hlast, hstart, hstop⟩ := Phrase.bounds hordered
  have hsplit : before ++ q.tokens ++ after =
      (before ++ q.lead) ++ (q.covered ++ (q.trail ++ after)) := by
    rw [q.tokens_eq]
    simp
  rw [hsplit] at hlaid
  obtain ⟨skipped, taken, rest, hchars, hskipped, htaken, hpart⟩ := hlaid.part hfirst hlast
  have hspan : q.denote.span = .ofChars (e.offset + size skipped) taken :=
    Span.eq_ofChars (hstart.trans hskipped) (by rw [hstop, hstart, htaken])
  refine ⟨taken, ⟨skipped, rest, hchars, hspan⟩, ?_⟩
  rw [tokens_eq_ok, hstart]
  exact hpart

/-- The characters of a part are read as the part, or not at all if a parenthesis in it has lost its
partner. -/
theorem read_covered {pos : Nat} {taken : List Char} {q : Phrase} (hgroup : q.isGroup = false)
    (htokens : tokens ⟨pos, taken⟩ = .ok q.covered) :
    (q.cutsGroup = false → read ⟨pos, taken⟩ = .ok q.denote) ∧
      (q.cutsGroup = true → ¬ (read ⟨pos, taken⟩).Succeeds) := by
  obtain ⟨hwhole, hcut⟩ := Phrase.lead_trail hgroup
  rw [read_eq htokens]
  constructor
  · intro h
    obtain ⟨hlead, htrail⟩ := hwhole h
    have hcovered : q.tokens = q.covered := by rw [q.tokens_eq, hlead, htrail]; simp
    exact ofTokens_iff.2 ⟨q, hcovered, rfl⟩
  · rintro h ⟨x, hread⟩
    obtain ⟨p, hp, -⟩ := ofTokens_iff.1 hread
    exact hcut h (Phrase.length_lead_trail (by rw [← hp]; exact p.balanced))

/-- The nodes of what some tokens of an excerpt form. -/
theorem nodes_of_ofTokens {e : Excerpt} {ts us : List Token} {x : Expr}
    (hts : tokens e = .ok ts) (hus : us <:+: ts) (hx : ofTokens e us = .ok x) :
    ∀ n ∈ x.nodes, ∃ (q : Phrase) (taken : List Char), q.denote = n ∧ q.isGroup = false ∧
      q.tokens <:+: us ∧ e.Covers n.span taken ∧ tokens ⟨n.span.start, taken⟩ = .ok q.covered := by
  obtain ⟨p, rfl, rfl⟩ := ofTokens_iff.1 hx
  intro n hn
  obtain ⟨q, rfl, hgroup, hq⟩ := p.nodes_part n hn
  obtain ⟨taken, hcovers, htokens⟩ := tokens_part hts (hq.trans hus)
  exact ⟨q, taken, rfl, hgroup, hq, hcovers, htokens⟩

/-- Every node of an expression is read again from the characters under its span, unless a
parenthesis that groups a part of it is covered without its partner. -/
theorem read_nodes {e : Excerpt} {x : Expr} (h : read e = .ok x) : ∃ ts, tokens e = .ok ts ∧
    ∀ n ∈ x.nodes, ∃ (q : Phrase) (taken : List Char),
      q.denote = n ∧ q.tokens <:+: ts ∧ e.Covers n.span taken ∧
      (q.cutsGroup = false → read ⟨n.span.start, taken⟩ = .ok n) ∧
      (q.cutsGroup = true → ¬ (read ⟨n.span.start, taken⟩).Succeeds) := by
  obtain ⟨ts, hts, hx⟩ := Except.bind_eq_ok.1 h
  refine ⟨ts, hts, fun n hn => ?_⟩
  obtain ⟨q, taken, rfl, hgroup, hq, hcovers, htokens⟩ :=
    nodes_of_ofTokens hts List.infix_rfl hx n hn
  obtain ⟨hsame, hcut⟩ := read_covered hgroup htokens
  exact ⟨q, taken, rfl, hq, hcovers, hsame, hcut⟩

/-! ## A member of a group -/

namespace Grouped

/-- A list of a member that is asked of a group, and of a negation. -/
def list : Excerpt := ⟨4, "[(a).b, !c]".toList⟩

/-- A member that is asked of a group. -/
def member : Excerpt := ⟨0, "(a).b".toList⟩

/-- The characters under the spans of all nodes, and whether they are an expression. -/
def reread (e : Excerpt) (x : Expr) : List (String × Bool) :=
  x.nodes.map fun n =>
    let taken := (slice? e.chars ⟨n.span.start - e.offset, n.span.length⟩).getD []
    (String.ofList taken, (read ⟨n.span.start, taken⟩).toBool)

/-- All nodes of the list are read again but the member of the group. -/
theorem read_nodes_list : ∃ x ts, read list = .ok x ∧ tokens list = .ok ts ∧
    (∀ n ∈ x.nodes, ∃ (q : Phrase) (taken : List Char),
      q.denote = n ∧ q.tokens <:+: ts ∧ list.Covers n.span taken ∧
      (q.cutsGroup = false → read ⟨n.span.start, taken⟩ = .ok n) ∧
      (q.cutsGroup = true → ¬ (read ⟨n.span.start, taken⟩).Succeeds)) ∧
    reread list x =
      [("[(a).b, !c]", true), ("a).b", false), ("a", true), ("!c", true), ("c", true)] := by
  have hreread : (read list).toOption.map (reread list) =
      some [("[(a).b, !c]", true), ("a).b", false), ("a", true), ("!c", true), ("c", true)] := by
    decide +kernel
  obtain ⟨x, hread, hx⟩ := Option.map_eq_some_iff.1 hreread
  have hread := Except.toOption_eq_some.1 hread
  obtain ⟨ts, hts, hnodes⟩ := read_nodes hread
  exact ⟨x, ts, hread, hts, hnodes, hx⟩

/-- The span of the member covers one parenthesis without the other. -/
theorem member_not_reread : ¬ ∀ (e : Excerpt) (x : Expr), read e = .ok x → ∀ n ∈ x.nodes,
    ∃ taken, e.Covers n.span taken ∧ ∃ y, read ⟨0, taken⟩ = .ok y ∧ y.bare = n.bare := by
  have hcovered : (read member).toOption.map (fun x => slice? member.chars x.span) =
      some (some "a).b".toList) := by decide +kernel
  obtain ⟨x, hread, hx⟩ := Option.map_eq_some_iff.1 hcovered
  intro h
  obtain ⟨taken, hcovers, y, hy, -⟩ :=
    h member x (Except.toOption_eq_some.1 hread) x x.mem_nodes_self
  have htaken := hcovers.slice (by decide : slice? member.chars member.span = some member.chars)
  rw [hx] at htaken
  cases htaken
  have hfails : (read ⟨0, "a).b".toList⟩).toBool = false := by decide +kernel
  rw [hy] at hfails
  cases hfails

end Grouped

end Expr

end TypedTemplate
