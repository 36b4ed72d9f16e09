/-
# `TypedTemplate.Proofs.Expr.Descent` — expressions read by recursive descent

`State.step` keeps in a list of frames what a reader by recursive descent keeps on the stack of its
calls.  Here is that reader: one function for each nonterminal of the grammar, which looks tokens
up by index and hands on the index after the last it took.  `none` is an index that is out of
range, and a function that succeeds has taken a token (`Taken`), or the next call might be for the
same place and the reading would not end.

The functions do what the states do (`expr_agrees`): where one of them begins, a run of the states
would want an operand, and where it is done the run has the operand complete, with the same frames
around it.  A state never passes the end of the tokens, and so no function does
(`whole_eq`, `header_eq`).
-/
import TypedTemplate.Proofs.Expr.Cursor
import TypedTemplate.Proofs.Expr.Spacing

namespace TypedTemplate.Expr.Descent

/-- What reading at an index comes to; `none` is an index that is out of range. -/
def Reading (α : Type) : Type := Option (Except (Fault Cause) α)

instance : Monad Reading where
  pure a := some (.ok a)
  bind x f :=
    match x with
    | some (.ok a) => f a
    | some (.error fault) => some (.error fault)
    | none => none

/-- Something read from the index `i` on, and the index after it, which is further on. -/
structure Taken (i : Nat) (α : Type) where
  value : α
  next : Nat
  takes : i < next

/-- The token at an index that is in range. -/
structure Here (ts : List Token) (i : Nat) where
  token : Token
  inRange : i < ts.length

/-- Looks at a token. -/
def peek (ts : List Token) (i : Nat) : Reading (Here ts i) :=
  if h : i < ts.length then some (.ok ⟨ts[i], h⟩) else none

/-- A token that cannot be right. -/
def refuse {α : Type} (expected : Expected) (t : Token) : Reading α := some (unexpected expected t)

/-- What a bracket has been opened for. -/
inductive Enclosure where
  | list (bracket : Span)
  | arguments (callee : Callee)

namespace Enclosure

/-- The bracket that closes it. -/
def closedBy : Enclosure → TokenKind → Bool
  | list _, .closeBracket => true
  | arguments _, .closeParen => true
  | _, _ => false

/-- What has to follow an item. -/
def expected : Enclosure → Expected
  | list _ => .commaOrCloseBracket
  | arguments _ => .commaOrCloseParen

/-- The expression with the items in the brackets; `close` is the span of the closing one. -/
def build : Enclosure → List Expr → Span → Expr
  | list bracket, items, close => .listing items (bracket.join close)
  | arguments callee, args, close => callee.apply args close

end Enclosure

/-! ## The functions -/

mutual

/-- An expression, with the negations before it. -/
def expr (ts : List Token) (i : Nat) : Reading (Taken i Expr) := do
  let ⟨t, _⟩ ← peek ts i
  match t.kind with
  | .bang =>
    let ⟨operand, next, _⟩ ← expr ts (i + 1)
    return ⟨.negation operand (t.span.join operand.span), next, by omega⟩
  | _ => chain ts i
termination_by 5 * (ts.length - i) + 3

/-- An operand with the members taken of it. -/
def chain (ts : List Token) (i : Nat) : Reading (Taken i Expr) := do
  let ⟨base, next, htakes⟩ ← atom ts i
  links ts i base next htakes
termination_by 5 * (ts.length - i) + 2

/-- The members taken of `base`, which ends before the index `j`. -/
def links (ts : List Token) (i : Nat) (base : Expr) (j : Nat) (h : i < j) :
    Reading (Taken i Expr) := do
  let ⟨t, _⟩ ← peek ts j
  match t.kind with
  | .dot =>
    let ⟨name, _⟩ ← peek ts (j + 1)
    match name.kind with
    | .name word =>
      let ⟨member, next, _⟩ ← called ts (.member base word name.span) (j + 1)
      links ts i member next (by omega)
    | _ => refuse .memberName name
  | _ => return ⟨base, j, h⟩
termination_by 5 * (ts.length - j)

/-- A name that stands at the index `i`, with its arguments if there are any. -/
def called (ts : List Token) (callee : Callee) (i : Nat) : Reading (Taken i Expr) := do
  let ⟨t, _⟩ ← peek ts (i + 1)
  match t.kind with
  | .openParen =>
    let ⟨call, next, _⟩ ← enclosed ts (.arguments callee) (i + 2)
    return ⟨call, next, by omega⟩
  | _ => return ⟨callee.plain, i + 1, by omega⟩
termination_by 5 * (ts.length - i)

/-- A literal, a name or a call, an expression in parentheses, or a list. -/
def atom (ts : List Token) (i : Nat) : Reading (Taken i Expr) := do
  let ⟨t, _⟩ ← peek ts i
  match t.kind with
  | .literal l => return ⟨.constant l t.span, i + 1, by omega⟩
  | .name word => called ts (.root word t.span) i
  | .openParen =>
    let ⟨inner, next, _⟩ ← expr ts (i + 1)
    let ⟨close, _⟩ ← peek ts next
    match close.kind with
    | .closeParen => return ⟨inner, next + 1, by omega⟩
    | _ => refuse .closeParen close
  | .openBracket =>
    let ⟨list, next, _⟩ ← enclosed ts (.list t.span) (i + 1)
    return ⟨list, next, by omega⟩
  | _ => refuse .expression t
termination_by 5 * (ts.length - i) + 1

/-- What stands behind an opening bracket, up to the closing one. -/
def enclosed (ts : List Token) (o : Enclosure) (i : Nat) : Reading (Taken i Expr) := do
  let ⟨t, _⟩ ← peek ts i
  if o.closedBy t.kind then return ⟨o.build [] t.span, i + 1, by omega⟩
  else
    let ⟨item, next, htakes⟩ ← expr ts i
    items ts o i [] item next htakes
termination_by 5 * (ts.length - i) + 4

/-- The items after the one that ends before the index `j`, up to the closing bracket. -/
def items (ts : List Token) (o : Enclosure) (i : Nat) (before : List Expr) (item : Expr) (j : Nat)
    (_h : i < j) : Reading (Taken i Expr) := do
  let ⟨t, _⟩ ← peek ts j
  match t.kind with
  | .comma =>
    let ⟨another, next, _⟩ ← expr ts (j + 1)
    items ts o i (before ++ [item]) another next (by omega)
  | kind =>
    if o.closedBy kind then return ⟨o.build (before ++ [item]) t.span, j + 1, by omega⟩
    else refuse o.expected t
termination_by 5 * (ts.length - j)

end

/-- An expression from the index `i` to the end of the tokens. -/
def whole (ts : List Token) (i : Nat) : Reading Expr := do
  let ⟨e, next, _⟩ ← expr ts i
  let ⟨t, _⟩ ← peek ts next
  match t.kind with
  | .stop => return e
  | _ => refuse .stop t

/-- The loop header that the tokens of an excerpt form. -/
def header (e : Excerpt) (ts : List Token) : Reading LoopHeader := do
  let malformed : Reading LoopHeader :=
    some (.error ⟨.malformedLoop (String.ofList e.chars), e.span⟩)
  let ⟨name, _⟩ ← peek ts 0
  match name.kind with
  | .name word =>
    if LoopHeader.isLoopName word then
      let ⟨colon, _⟩ ← peek ts 1
      match colon.kind with
      | .colon =>
        let ⟨first, _⟩ ← peek ts 2
        match first.kind with
        | .stop => malformed
        | _ =>
          let list ← whole ts 2
          return ⟨word, list⟩
      | _ => malformed
    else malformed
  | _ => malformed

/-! ## Runs of the states -/

section

variable {ts : List Token} {i j : Nat} {t : Token} {s : State} {frames : List Frame}

/-- Behind each token there is another, unless it stands for the end. -/
def Ended (ts : List Token) : Prop :=
  ∀ ⦃i : Nat⦄ ⦃t : Token⦄, ts[i]? = some t → t.kind ≠ .stop → i + 1 < ts.length

theorem ended_append_stop (ts : List Token) (e : Excerpt) : Ended (ts ++ [.stop e]) := by
  intro i t ht hkind
  rw [List.length_append, List.length_singleton]
  rcases Nat.lt_or_ge i ts.length with hlt | hge
  · exact Nat.succ_lt_succ hlt
  · rw [List.getElem?_append_right hge] at ht
    cases hlast : i - ts.length with
    | zero =>
        rw [hlast] at ht
        cases ht
        exact (hkind rfl).elim
    | succ n =>
        rw [hlast] at ht
        cases ht

theorem run_step {s' : State} (ht : ts[i]? = some t) (hkind : t.kind ≠ .stop)
    (hstep : s.step t = .ok s') : Cursor.readFrom ts s i = Cursor.readFrom ts s' (i + 1) := by
  rw [Cursor.readFrom_step ht hkind, hstep]

theorem run_stop (ht : ts[i]? = some t) (hkind : t.kind = .stop) :
    Cursor.readFrom ts s i = some (s.finish t) := by
  obtain ⟨kind, span⟩ := t
  cases hkind
  exact Cursor.readFrom_stop ht

/-- Two states that are at one in what they make of the token are at one from there on. -/
theorem run_congr {s' : State} (ht : ts[i]? = some t) (hstep : s.step t = s'.step t)
    (hfinish : s.finish t = s'.finish t) : Cursor.readFrom ts s i = Cursor.readFrom ts s' i := by
  by_cases hkind : t.kind = .stop
  · rw [run_stop ht hkind, run_stop ht hkind, hfinish]
  · rw [Cursor.readFrom_step ht hkind, Cursor.readFrom_step ht hkind, hstep]

/-- A state that does not take the token fails there, be it the last or not. -/
theorem run_refused {expected : Expected} (ht : ts[i]? = some t)
    (hstep : s.step t = unexpected expected t) (hfinish : s.finish t = unexpected expected t) :
    Cursor.readFrom ts s i = some (unexpected expected t) := by
  by_cases hkind : t.kind = .stop
  · rw [run_stop ht hkind, hfinish]
  · rw [Cursor.readFrom_step ht hkind, hstep]
    rfl

end

/-! ## What a function does is what the states do -/

/-- A run of the states fails as the function does, or is, where the function is done, at a token
with `next`, and has what was read complete. -/
inductive Agrees {i : Nat} (ts : List Token) (frames : List Frame) (next : Token → Prop)
    (run : Option (Except (Fault Cause) Expr)) : Reading (Taken i Expr) → Prop where
  | fails {fault : Fault Cause} : run = some (.error fault) →
      Agrees ts frames next run (some (.error fault))
  | takes {e : Expr} {j : Nat} {t : Token} (h : i < j) : ts[j]? = some t → next t →
      run = Cursor.readFrom ts (.complete e frames) j →
      Agrees ts frames next run (some (.ok ⟨e, j, h⟩))

section

variable {ts : List Token} {i j : Nat} {t : Token} {frames : List Frame} {next : Token → Prop}
  {run : Option (Except (Fault Cause) Expr)}

/-- The rest of a function, behind what it has read by another. -/
theorem Agrees.bind {i' : Nat} {frames' : List Frame} {next' : Token → Prop}
    {found : Reading (Taken i' Expr)} {rest : Taken i' Expr → Reading (Taken i Expr)}
    (h : Agrees ts frames' next' run found)
    (hrest : ∀ {e : Expr} {j : Nat} {t : Token} (hj : i' < j), ts[j]? = some t → next' t →
      Agrees ts frames next (Cursor.readFrom ts (.complete e frames') j) (rest ⟨e, j, hj⟩)) :
    Agrees ts frames next run (found >>= rest) := by
  cases h with
  | fails hrun => exact .fails hrun
  | takes hj ht hnext hrun =>
      rw [hrun]
      exact hrest hj ht hnext

/-- `expr` agrees with the states from the index `k` on. -/
def Reads (ts : List Token) (k : Nat) : Prop :=
  ∀ i, k ≤ i → i < ts.length → ∀ frames,
    Agrees ts frames (fun t => t.kind ≠ .dot) (Cursor.readFrom ts (.operand frames) i) (expr ts i)

theorem Reads.mono {k k' : Nat} (h : Reads ts k) (hle : k ≤ k') : Reads ts k' :=
  fun i hi => h i (hle.trans hi)

/-- The frame of what is in the brackets; its items so far are last first. -/
def Enclosure.frame : Enclosure → List Expr → Frame
  | .list bracket, items => .list bracket items
  | .arguments callee, args => .arguments callee args

variable {o : Enclosure}

theorem Enclosure.step_closed (hclosed : o.closedBy t.kind = true) :
    State.step (.opened (o.frame [] :: frames)) t = .ok (.complete (o.build [] t.span) frames) := by
  obtain ⟨kind, span⟩ := t
  cases o <;> cases kind <;> first | rfl | cases hclosed

/-- Unless the brackets are empty an item begins. -/
theorem Enclosure.step_opened (hclosed : o.closedBy t.kind = false) :
    State.step (.opened (o.frame [] :: frames)) t =
      State.step (.operand (o.frame [] :: frames)) t := by
  obtain ⟨kind, span⟩ := t
  cases o <;> cases kind <;> first | rfl | cases hclosed

theorem Enclosure.step_comma (items : List Expr) (e : Expr) (span : Span) :
    State.step (.complete e (o.frame items :: frames)) ⟨.comma, span⟩ =
      .ok (.operand (o.frame (e :: items) :: frames)) := by
  cases o <;> rfl

theorem Enclosure.step_close {items : List Expr} {e : Expr} (hclosed : o.closedBy t.kind = true) :
    State.step (.complete e (o.frame items :: frames)) t =
      .ok (.complete (o.build (e :: items).reverse t.span) frames) := by
  obtain ⟨kind, span⟩ := t
  cases o <;> cases kind <;> first | rfl | cases hclosed

theorem Enclosure.kind_ne_stop (hclosed : o.closedBy t.kind = true) : t.kind ≠ .stop := by
  obtain ⟨kind, span⟩ := t
  rintro rfl
  cases o <;> cases hclosed

/-- Behind an item comes a comma, the closing bracket or nothing that is right. -/
theorem Enclosure.step_refused {items : List Expr} {e : Expr} (hdot : t.kind ≠ .dot)
    (hcomma : t.kind ≠ .comma) (hclosed : o.closedBy t.kind = false) :
    State.step (.complete e (o.frame items :: frames)) t = unexpected o.expected t := by
  obtain ⟨kind, span⟩ := t
  cases o <;> cases kind <;>
    first | rfl | exact (hdot rfl).elim | exact (hcomma rfl).elim | cases hclosed

/-! ### One function after the other -/

/-- The token at an index in range. -/
theorem exists_token (h : i < ts.length) :
    ∃ t, ts[i]? = some t ∧ peek ts i = some (.ok ⟨t, h⟩) :=
  ⟨ts[i], List.getElem?_eq_getElem h, dif_pos h⟩

/-- Behind the last item. -/
theorem close_agrees (hts : Ended ts) {before : List Expr} {item : Expr} (hj : i < j)
    (ht : ts[j]? = some t) (hdot : t.kind ≠ .dot) (hcomma : t.kind ≠ .comma) :
    Agrees ts frames (fun _ => True)
      (Cursor.readFrom ts (.complete item (o.frame before.reverse :: frames)) j)
      (if o.closedBy t.kind then
        (pure ⟨o.build (before ++ [item]) t.span, j + 1, by omega⟩ : Reading (Taken i Expr))
      else refuse o.expected t) := by
  cases hclosed : o.closedBy t.kind with
  | true =>
      have hkind := Enclosure.kind_ne_stop hclosed
      have hitems : (item :: before.reverse).reverse = before ++ [item] := by simp
      obtain ⟨u, hu, -⟩ := exists_token (hts ht hkind)
      refine .takes _ hu trivial ?_
      rw [← hitems]
      exact run_step ht hkind (Enclosure.step_close hclosed)
  | false =>
      have hfinish : State.finish (.complete item (o.frame before.reverse :: frames)) t =
          unexpected o.expected t := by
        cases o <;> rfl
      exact .fails (run_refused ht (Enclosure.step_refused hdot hcomma hclosed) hfinish)

theorem items_agrees (hts : Ended ts) (before : List Expr) {item : Expr} (hj : i < j)
    (below : Reads ts (j + 1)) (ht : ts[j]? = some t) (hdot : t.kind ≠ .dot) :
    Agrees ts frames (fun _ => True)
      (Cursor.readFrom ts (.complete item (o.frame before.reverse :: frames)) j)
      (items ts o i before item j hj) := by
  induction hn : ts.length - j using Nat.strongRecOn generalizing before item j t with
  | ind n ih =>
      have hlt := (List.getElem?_eq_some_iff.1 ht).1
      obtain ⟨u, hu, hpeek⟩ := exists_token hlt
      obtain rfl : u = t := Option.some.inj (hu.symm.trans ht)
      obtain ⟨kind, span⟩ := u
      rw [items, hpeek]
      cases kind with
      | comma =>
          rw [run_step ht nofun (Enclosure.step_comma before.reverse item span)]
          refine (below (j + 1) (Nat.le_refl _) (hts ht nofun) _).bind fun hj' hu hdot => ?_
          have hframe : item :: before.reverse = (before ++ [item]).reverse := by simp
          rw [hframe]
          exact ih _ (by omega) _ _ (below.mono (by omega)) hu hdot rfl
      | _ => exact close_agrees hts hj ht hdot nofun

theorem enclosed_agrees (hts : Ended ts) (below : Reads ts i) (hi : i < ts.length) :
    Agrees ts frames (fun _ => True) (Cursor.readFrom ts (.opened (o.frame [] :: frames)) i)
      (enclosed ts o i) := by
  obtain ⟨t, ht, hpeek⟩ := exists_token hi
  rw [enclosed, hpeek]
  show Agrees ts frames _ _ (if o.closedBy t.kind then _ else _)
  cases hclosed : o.closedBy t.kind with
  | true =>
      have hkind := Enclosure.kind_ne_stop hclosed
      obtain ⟨u, hu, -⟩ := exists_token (hts ht hkind)
      exact .takes _ hu trivial (run_step ht hkind (Enclosure.step_closed hclosed))
  | false =>
      rw [run_congr ht (Enclosure.step_opened hclosed) rfl]
      exact (below i (Nat.le_refl i) hi _).bind fun hj hu hdot =>
        items_agrees hts [] hj (below.mono (by omega)) hu hdot

theorem called_agrees (hts : Ended ts) (below : Reads ts (i + 2)) (hi : i + 1 < ts.length)
    (callee : Callee) : Agrees ts frames (fun _ => True)
      (Cursor.readFrom ts (.named callee frames) (i + 1)) (called ts callee i) := by
  obtain ⟨⟨kind, span⟩, ht, hpeek⟩ := exists_token hi
  rw [called, hpeek]
  cases kind with
  | openParen =>
      have hnext := hts ht nofun
      rw [run_step ht nofun rfl]
      exact (enclosed_agrees (o := .arguments callee) hts below hnext).bind fun hj hu _ =>
        .takes _ hu trivial rfl
  | _ => exact .takes _ ht trivial (run_congr ht rfl rfl)

theorem links_agrees (hts : Ended ts) {base : Expr} (hj : i < j) (below : Reads ts (j + 1))
    (ht : ts[j]? = some t) : Agrees ts frames (fun t => t.kind ≠ .dot)
      (Cursor.readFrom ts (.complete base frames) j) (links ts i base j hj) := by
  induction hn : ts.length - j using Nat.strongRecOn generalizing base j t with
  | ind n ih =>
      have hlt := (List.getElem?_eq_some_iff.1 ht).1
      obtain ⟨u, hu, hpeek⟩ := exists_token hlt
      obtain rfl : u = t := Option.some.inj (hu.symm.trans ht)
      obtain ⟨kind, span⟩ := u
      rw [links, hpeek]
      cases kind with
      | dot =>
          have hname := hts ht nofun
          obtain ⟨⟨kind, span⟩, hu, hpeek'⟩ := exists_token hname
          rw [run_step ht nofun rfl]
          show Agrees ts frames _ _ (peek ts (j + 1) >>= _)
          rw [hpeek']
          cases kind with
          | name word =>
              rw [run_step hu nofun rfl]
              refine (called_agrees hts (below.mono (by omega)) (hts hu nofun) _).bind ?_
              intro member j' u hj' hu' _
              exact ih _ (by omega) _ (below.mono (by omega)) hu' rfl
          | _ => exact .fails (run_refused hu rfl rfl)
      | _ => exact .takes hj ht nofun rfl

/-- A negation is not looked for here. -/
theorem atom_agrees (hts : Ended ts) (below : Reads ts (i + 1)) (ht : ts[i]? = some t)
    (hbang : t.kind ≠ .bang) :
    Agrees ts frames (fun _ => True) (Cursor.readFrom ts (.operand frames) i) (atom ts i) := by
  obtain ⟨u, hu, hpeek⟩ := exists_token (List.getElem?_eq_some_iff.1 ht).1
  obtain rfl : u = t := Option.some.inj (hu.symm.trans ht)
  obtain ⟨kind, span⟩ := u
  rw [atom, hpeek]
  cases kind with
  | bang => exact (hbang rfl).elim
  | literal l =>
      obtain ⟨u, hu, -⟩ := exists_token (hts ht nofun)
      exact .takes _ hu trivial (run_step ht nofun rfl)
  | name word =>
      rw [run_step ht nofun rfl]
      exact called_agrees hts (below.mono (by omega)) (hts ht nofun) _
  | openParen =>
      rw [run_step ht nofun rfl]
      refine (below (i + 1) (Nat.le_refl _) (hts ht nofun) _).bind fun {inner j u} hj hu hdot => ?_
      obtain ⟨⟨kind, span'⟩, hu', hpeek'⟩ := exists_token (List.getElem?_eq_some_iff.1 hu).1
      obtain rfl := Option.some.inj (hu'.symm.trans hu)
      show Agrees ts frames _ _ (peek ts j >>= _)
      rw [hpeek']
      cases kind with
      | closeParen =>
          obtain ⟨v, hv, -⟩ := exists_token (hts hu nofun)
          exact .takes _ hv trivial (run_step hu nofun rfl)
      | dot => exact (hdot rfl).elim
      | _ => exact .fails (run_refused hu rfl rfl)
  | openBracket =>
      rw [run_step ht nofun rfl]
      exact (enclosed_agrees (o := .list span) hts below (hts ht nofun)).bind fun hj hu _ =>
        .takes _ hu trivial rfl
  | _ => exact .fails (run_refused ht rfl rfl)

theorem chain_agrees (hts : Ended ts) (below : Reads ts (i + 1)) (ht : ts[i]? = some t)
    (hbang : t.kind ≠ .bang) :
    Agrees ts frames (fun t => t.kind ≠ .dot) (Cursor.readFrom ts (.operand frames) i)
      (chain ts i) := by
  rw [chain]
  exact (atom_agrees hts below ht hbang).bind fun hj hu _ =>
    links_agrees hts hj (below.mono (by omega)) hu

/-- The negation waits in the frames until its operand can grow no further. -/
theorem expr_agrees (hts : Ended ts) (below : Reads ts (i + 1)) (hi : i < ts.length) :
    Agrees ts frames (fun t => t.kind ≠ .dot) (Cursor.readFrom ts (.operand frames) i)
      (expr ts i) := by
  obtain ⟨⟨kind, span⟩, ht, hpeek⟩ := exists_token hi
  rw [expr, hpeek]
  cases kind with
  | bang =>
      rw [run_step ht nofun rfl]
      refine (below (i + 1) (Nat.le_refl _) (hts ht nofun) _).bind fun {e j u} hj hu hdot => ?_
      refine .takes _ hu hdot (run_congr hu ?_ rfl)
      obtain ⟨kind, span⟩ := u
      cases kind with
      | dot => exact (hdot rfl).elim
      | _ => rfl
  | _ => exact chain_agrees hts below ht nofun

/-- From the index `k` on, for every `k`. -/
theorem reads (hts : Ended ts) (k : Nat) : Reads ts k := by
  induction hn : ts.length - k generalizing k with
  | zero =>
      intro i hk hi
      omega
  | succ n ih =>
      have below := ih (k + 1) (by omega)
      intro i hk hi frames
      rcases Nat.eq_or_lt_of_le hk with rfl | hlt
      · exact expr_agrees hts below hi
      · exact below i hlt hi frames

/-! ## The whole expression -/

theorem whole_eq (hts : Ended ts) (hi : i < ts.length) :
    whole ts i = Cursor.readFrom ts .start i := by
  have hrun := reads hts i i (Nat.le_refl i) hi []
  rw [whole]
  generalize expr ts i = found at hrun
  cases hrun with
  | fails h => exact h.symm
  | takes hj hu hdot h =>
      obtain ⟨⟨kind, span⟩, ht, hpeek⟩ := exists_token (List.getElem?_eq_some_iff.1 hu).1
      obtain rfl := Option.some.inj (ht.symm.trans hu)
      show (peek ts _ >>= _) = _
      rw [hpeek, show Cursor.readFrom ts .start i = _ from h]
      cases kind with
      | stop =>
          rw [run_stop ht rfl]
          rfl
      | dot => exact (hdot rfl).elim
      | _ =>
          rw [Cursor.readFrom_step ht nofun]
          rfl

/-- The tokens that a header is told by are looked at in the same order. -/
theorem header_eq (hts : Ended ts) (e : Excerpt) (hstart : 0 < ts.length) :
    header e ts = Cursor.headerOf e ts := by
  obtain ⟨⟨kind, span⟩, hname, hpeek⟩ := exists_token hstart
  rw [header, Cursor.headerOf, hpeek, hname]
  cases kind with
  | name word =>
      obtain ⟨⟨kind, span'⟩, hcolon, hpeek'⟩ := exists_token (hts hname nofun)
      show (if LoopHeader.isLoopName word = true then _ else _) =
        (if LoopHeader.isLoopName word = true then _ else _)
      rw [hpeek', hcolon]
      cases kind with
      | colon =>
          obtain ⟨⟨kind, span''⟩, hfirst, hpeek''⟩ := exists_token (hts hcolon nofun)
          show (if LoopHeader.isLoopName word = true then (peek ts 2 >>= _) else _) =
            (if LoopHeader.isLoopName word = true then _ else _)
          rw [hpeek'', hfirst]
          cases kind with
          | stop => rfl
          | _ =>
              have hlist := whole_eq hts (List.getElem?_eq_some_iff.1 hfirst).1
              show (if LoopHeader.isLoopName word = true then (whole ts 2 >>= _) else _) = _
              rw [hlist]
              rcases Cursor.readFrom ts .start 2 with _ | _ | _ <;> rfl
      | _ => rfl
  | _ => rfl

/-! ## The cursor -/

/-- A function looks at no index out of range; if it succeeds it has taken a token, and is not past
the last. -/
def Stays (ts : List Token) {i : Nat} (found : Reading (Taken i Expr)) : Prop :=
  ∃ result, found = some result ∧ ∀ r, result = .ok r → i < r.next ∧ r.next < ts.length

theorem Agrees.stays (frames : List Frame) {found : Reading (Taken i Expr)}
    (h : Agrees ts frames next run found) : Stays ts found := by
  cases h with
  | fails => exact ⟨_, rfl, nofun⟩
  | takes hj ht =>
      refine ⟨_, rfl, ?_⟩
      rintro _ ⟨⟩
      exact ⟨hj, (List.getElem?_eq_some_iff.1 ht).1⟩

/-- Each function stays among the tokens, from the index `i` on. -/
structure Bounded (ts : List Token) (i : Nat) : Prop where
  expr : Stays ts (expr ts i)
  chain : Stays ts (chain ts i)
  atom : Stays ts (atom ts i)
  enclosed : ∀ o, Stays ts (enclosed ts o i)

theorem bounded (hts : Ended ts) (hi : i < ts.length) : Bounded ts i := by
  have below := reads hts i
  obtain ⟨⟨kind, span⟩, ht, hpeek⟩ := exists_token hi
  by_cases hbang : kind = .bang
  · -- no operand begins with a negation
    subst hbang
    have hatom : atom ts i = refuse .expression ⟨.bang, span⟩ := by
      rw [atom, hpeek]
      rfl
    have hchain : chain ts i = refuse .expression ⟨.bang, span⟩ := by
      rw [chain, hatom]
      rfl
    refine ⟨Agrees.stays [] (below i (Nat.le_refl i) hi []), ?_, ?_, fun o => ?_⟩
    · exact ⟨_, hchain, nofun⟩
    · exact ⟨_, hatom, nofun⟩
    · exact Agrees.stays [] (enclosed_agrees hts below hi)
  · have hlater := below.mono (Nat.le_succ i)
    refine ⟨Agrees.stays [] (below i (Nat.le_refl i) hi []), ?_, ?_, fun o => ?_⟩
    · exact Agrees.stays [] (chain_agrees hts hlater ht hbang)
    · exact Agrees.stays [] (atom_agrees hts hlater ht hbang)
    · exact Agrees.stays [] (enclosed_agrees hts below hi)

end

/-- The tokens of an expression tile it, and however much blank space is between them they are the
same.  The functions that read them stay among them and take at least one, wherever they begin, and
read the expression or the loop header that there is. -/
theorem tokens_tile {e : Excerpt} {ts : List Token} (h : tokens e = .ok ts) :
    Tiling e ts ∧ (∀ i, i < ts.length + 1 → Bounded (ts ++ [.stop e]) i) ∧
      whole (ts ++ [.stop e]) 0 = some (Expr.read e) ∧
      header e (ts ++ [.stop e]) = some (LoopHeader.read e) := by
  have hts := ended_append_stop ts e
  have hkinds := kind_ne_stop_of_mem h
  have hlength : (ts ++ [Token.stop e]).length = ts.length + 1 := List.length_append
  have hstart : 0 < (ts ++ [Token.stop e]).length := by omega
  refine ⟨tiling_of_tokens h, fun i hi => bounded hts (by omega), ?_, ?_⟩
  · rw [whole_eq hts hstart, Expr.read, h]
    exact Cursor.readFrom_eq e [] .start hkinds
  · rw [header_eq hts e hstart, LoopHeader.read, h]
    exact Cursor.headerOf_eq e hkinds

namespace Invitation

/-- A call with a negative argument, three bytes into a template. -/
def call : Excerpt := ⟨3, "a.b(-1)".toList⟩

/-- The theorem at the call: a space may be put in behind the point, and reading from the name of
the method on stays among the tokens. -/
theorem tokens_tile_call : ∃ ts, tokens call = .ok ts ∧
    ts.map Token.span = [⟨3, 1⟩, ⟨4, 1⟩, ⟨5, 1⟩, ⟨6, 1⟩, ⟨7, 2⟩, ⟨9, 1⟩] ∧
    Tiling call ts ∧
    (∃ us, tokens ⟨3, "a. b(-1)".toList⟩ = .ok us ∧ us.map Token.kind = ts.map Token.kind) ∧
    Bounded (ts ++ [.stop call]) 2 ∧
    whole (ts ++ [.stop call]) 0 = some (Expr.read call) := by
  have hspans : (tokens call).toOption.map (fun ts => ts.map Token.span) =
      some [⟨3, 1⟩, ⟨4, 1⟩, ⟨5, 1⟩, ⟨6, 1⟩, ⟨7, 2⟩, ⟨9, 1⟩] := by decide +kernel
  obtain ⟨ts, hfound, hspans⟩ := Option.map_eq_some_iff.1 hspans
  have hts := Except.toOption_eq_some.1 hfound
  obtain ⟨htiling, hbounded, hwhole, -⟩ := tokens_tile hts
  have hlength : ts.length = 6 := by rw [← List.length_map Token.span, hspans]; rfl
  have hspares : ∀ t ∈ ts, t.Spares 5 := by
    have hplaces : ∀ s ∈ ts.map Token.span, s.stop ≤ 5 ∨ 5 ≤ s.start := by rw [hspans]; decide
    intro t ht
    exact hplaces t.span (List.mem_map_of_mem ht)
  have hspaced := htiling.spaced "a.".toList "b(-1)".toList [' '] rfl
    (List.forall_mem_singleton.2 rfl) hspares
  exact ⟨ts, hts, hspans, htiling, hspaced, hbounded 2 (by omega), hwhole⟩

end Invitation

end TypedTemplate.Expr.Descent
