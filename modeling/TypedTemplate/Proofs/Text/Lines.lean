/-
# `TypedTemplate.Proofs.Text.Lines` — offsets and the lines and columns they are in

The location of an offset depends only on the characters that begin before it (`Text.begun`):
the line is one more than the number of line feeds among them, the column one more than the
number of characters after the last of these (`Location.behind`).  Every further character
moves the location on (`Location.lt_after`), in the order by line and then by column.  So
locations are ordered as offsets are, two places between characters never have the same one,
and a place is found again from its location by going through the text once
(`Source.offset?`).

`Source.locate` counts in the bytes of the text instead: line feeds are bytes of their own, and
a column is the number of bytes that begin a character.
-/
import Mathlib.Data.List.DropRight
import Mathlib.Data.Prod.Lex
import Mathlib.Order.Monotone.Basic
import TypedTemplate.Proofs.Text.Bytes
import TypedTemplate.Proofs.Text.Offsets

namespace TypedTemplate

open Text

/-! ## The order of locations -/

namespace Location

/-- A location among all others: by its line, and in the line by its column. -/
def order (l : Location) : ℕ ×ₗ ℕ := toLex (l.line, l.column)

/-- A character moves the location on. -/
theorem lt_after (l : Location) (c : Char) : l.order < (l.after c).order := by
  rw [after]
  split
  · exact Prod.Lex.toLex_lt_toLex.2 (Or.inl (Nat.lt_succ_self l.line))
  · exact Prod.Lex.toLex_lt_toLex.2 (Or.inr ⟨rfl, Nat.lt_succ_self l.column⟩)

theorem le_foldl_after (cs : List Char) : ∀ l : Location, l.order ≤ (cs.foldl after l).order := by
  induction cs with
  | nil => exact fun l => le_refl _
  | cons c cs ih => exact fun l => le_trans (lt_after l c).le (ih _)

/-! ## The characters before a place -/

/-- The line is one more than the number of line feeds before the place, and the column one more than
that of the characters after the last of them. -/
def behind (before : List Char) : Location :=
  ⟨before.count '\n' + 1, (before.rtakeWhile (· ≠ '\n')).length + 1⟩

theorem behind_concat (before : List Char) (c : Char) :
    behind (before ++ [c]) = (behind before).after c := by
  rw [after]
  by_cases hfeed : c = '\n'
  · subst hfeed
    rw [if_pos rfl, behind, behind, List.count_append, List.rtakeWhile_concat_neg _ _ _ (by simp)]
    rfl
  · have hcount : [c].count '\n' = 0 := List.count_eq_zero.2 (by simpa using Ne.symm hfeed)
    rw [if_neg hfeed, behind, behind, List.count_append, hcount,
      List.rtakeWhile_concat_pos _ _ _ (by simpa using hfeed), List.length_append]
    rfl

/-- Going on over some characters counts them. -/
theorem foldl_after_behind (cs : List Char) : ∀ before : List Char,
    cs.foldl after (behind before) = behind (before ++ cs) := by
  induction cs with
  | nil => exact fun before => by rw [List.append_nil]; rfl
  | cons c cs ih =>
      intro before
      rw [List.foldl_cons, ← behind_concat, ih, List.append_assoc]
      rfl

theorem behind_le {before more : List Char} (h : before <+: more) :
    (behind before).order ≤ (behind more).order := by
  obtain ⟨cs, rfl⟩ := h
  rw [← foldl_after_behind]
  exact le_foldl_after cs _

theorem behind_lt {before more : List Char} (h : before <+: more) (hne : before ≠ more) :
    (behind before).order < (behind more).order := by
  obtain ⟨cs, rfl⟩ := h
  rw [← foldl_after_behind]
  cases cs with
  | nil => exact (hne (List.append_nil before).symm).elim
  | cons c cs => exact lt_of_lt_of_le (lt_after _ c) (le_foldl_after cs _)

end Location

namespace Text

/-- The characters that begin before the offset. -/
def begun : Nat → List Char → List Char
  | _, [] => []
  | n, c :: cs => if n = 0 then [] else c :: begun (n - c.utf8Size) cs

variable {cs : List Char} {n m : Nat}

theorem begun_isPrefix (n : Nat) (cs : List Char) : begun n cs <+: cs := by
  induction cs generalizing n with
  | nil => exact List.prefix_rfl
  | cons c cs ih =>
      rw [begun]
      split
      · exact List.nil_prefix
      · exact List.prefix_cons_inj c |>.2 (ih _)

theorem begun_mono (h : n ≤ m) (cs : List Char) : begun n cs <+: begun m cs := by
  induction cs generalizing n m with
  | nil => exact List.prefix_rfl
  | cons c cs ih =>
      rw [begun]
      split
      · exact List.nil_prefix
      · rename_i hn
        rw [begun, if_neg (by omega)]
        exact List.prefix_cons_inj c |>.2 (ih (by omega))

/-- Before a place between characters begin those that are before it. -/
theorem begun_append (before rest : List Char) : begun (size before) (before ++ rest) = before := by
  induction before with
  | nil => cases rest <;> rfl
  | cons c before ih =>
      have hpos := c.utf8Size_pos
      have hsub : c.utf8Size + size before - c.utf8Size = size before := Nat.add_sub_cancel_left _ _
      rw [List.cons_append, size_cons, begun, if_neg (by omega), hsub, ih]

theorem begun_of_size_le (h : size cs ≤ n) : begun n cs = cs := by
  have hall := begun_append cs []
  rw [List.append_nil] at hall
  have hprefix := begun_mono h cs
  rw [hall] at hprefix
  exact (begun_isPrefix n cs).eq_of_length_le hprefix.length_le

theorem begun_min (n : Nat) (cs : List Char) : begun (min n (size cs)) cs = begun n cs := by
  rcases Nat.le_total n (size cs) with hle | hle
  · rw [Nat.min_eq_left hle]
  · rw [Nat.min_eq_right hle, begun_of_size_le hle, begun_of_size_le (Nat.le_refl _)]

end Text

theorem Location.advance_eq (cs : List Char) : ∀ (l : Location) (n : Nat),
    l.advance n cs = (begun n cs).foldl after l := by
  induction cs with
  | nil => exact fun _ _ => rfl
  | cons c cs ih =>
      intro l n
      rw [advance, begun]
      split
      · rfl
      · exact ih _ _

namespace Source

variable {s : Source} {n m : Nat}

theorem location_begun (s : Source) (n : Nat) : s.location n = .behind (begun n s.chars) := by
  rw [location, Location.advance_eq]
  exact Location.foldl_after_behind _ []

theorem location_eq {before rest : List Char} (h : s.chars = before ++ rest) :
    s.location (size before) = .behind before := by
  rw [location_begun, h, begun_append]

theorem location_le (h : n ≤ m) : (s.location n).order ≤ (s.location m).order := by
  rw [location_begun, location_begun]
  exact Location.behind_le (begun_mono h s.chars)

theorem location_of_size_le (h : size s.chars ≤ n) : s.location n = s.location (size s.chars) := by
  rw [location_begun, location_begun, begun_of_size_le h, begun_of_size_le (Nat.le_refl _)]

/-- Between two places of which the second is further on there is a character. -/
theorem location_lt (hn : Boundary s.chars n) (hm : Boundary s.chars m) (h : n < m) :
    (s.location n).order < (s.location m).order := by
  obtain ⟨before, rest, hchars, rfl⟩ := hn
  obtain ⟨before', rest', hchars', rfl⟩ := hm
  rw [location_eq hchars, location_eq hchars']
  refine Location.behind_lt ?_ ?_
  · exact prefix_of_size_le ⟨rest, hchars.symm⟩ ⟨rest', hchars'.symm⟩ h.le
  · rintro rfl
    exact Nat.lt_irrefl _ h

theorem location_injOn (s : Source) : Set.InjOn s.location {n | Boundary s.chars n} := by
  intro n hn m hm h
  rcases Nat.lt_trichotomy n m with hlt | heq | hlt
  · exact ((location_lt hn hm hlt).ne (by rw [h])).elim
  · exact heq
  · exact ((location_lt hm hn hlt).ne (by rw [h])).elim

end Source

/-! ## Counting by offsets -/

namespace Text

/-- The offsets at which a character of a kind begins. -/
def offsets (p : Char → Bool) (cs : List Char) : List Nat := places (startsWhere p) cs

variable {p : Char → Bool} {cs : List Char} {c : Char} {k n : Nat}

theorem placesFrom_cons (p : Char → Bool) (k : Nat) (c : Char) (cs : List Char) :
    placesFrom (startsWhere p) k (c :: cs) =
      (if p c then [k] else []) ++ placesFrom (startsWhere p) (k + c.utf8Size) cs := by
  cases hc : p c <;> simp [placesFrom, startsWhere, hc]

theorem placesFrom_concat (p : Char → Bool) (k : Nat) (cs : List Char) (c : Char) :
    placesFrom (startsWhere p) k (cs ++ [c]) =
      placesFrom (startsWhere p) k cs ++ if p c then [k + size cs] else [] := by
  induction cs generalizing k with
  | nil => rw [List.nil_append, placesFrom_cons, placesFrom, placesFrom, List.append_nil]; rfl
  | cons d cs ih =>
      rw [List.cons_append, placesFrom_cons, placesFrom_cons, ih, size_cons, Nat.add_assoc,
        List.append_assoc]

theorem offsets_concat :
    offsets p (cs ++ [c]) = offsets p cs ++ if p c then [size cs] else [] := by
  rw [offsets, places, placesFrom_concat, Nat.zero_add]
  rfl

/-- The characters that begin before an offset are those whose offset is smaller. -/
theorem placesFrom_begun : placesFrom (startsWhere p) k (begun n cs) =
    (placesFrom (startsWhere p) k cs).filter (· < k + n) := by
  induction cs generalizing k n with
  | nil => rfl
  | cons c cs ih =>
      have hpos := c.utf8Size_pos
      have hlater : placesFrom (startsWhere p) (k + c.utf8Size) (begun (n - c.utf8Size) cs) =
          (placesFrom (startsWhere p) (k + c.utf8Size) cs).filter (· < k + n) := by
        rw [ih]
        refine List.filter_congr fun i hi => ?_
        have hle := le_of_mem_placesFrom hi
        exact decide_eq_decide.2 (by omega)
      have hfirst (hn : n ≠ 0) : (if p c then [k] else []).filter (· < k + n) =
          if p c then [k] else [] := by
        split
        · exact List.filter_cons_of_pos (decide_eq_true (by omega))
        · rfl
      by_cases hn : n = 0
      · subst hn
        refine (List.filter_eq_nil_iff.2 fun i hi => ?_).symm
        have hle := le_of_mem_placesFrom hi
        simpa using hle
      · rw [begun, if_neg hn, placesFrom_cons, placesFrom_cons, hlater, List.filter_append,
          hfirst hn]

theorem offsets_begun : offsets p (begun n cs) = (offsets p cs).filter (· < n) := by
  rw [offsets, places, placesFrom_begun, Nat.zero_add]
  rfl

theorem lt_of_mem_offsets {i : Nat} (h : i ∈ offsets p cs) : i < size cs := by
  rw [← begun_of_size_le (Nat.le_refl (size cs)), offsets_begun] at h
  simpa using (List.mem_filter.1 h).2

theorem length_offsets (p : Char → Bool) (cs : List Char) : (offsets p cs).length = cs.countP p := by
  induction cs using List.reverseRecOn with
  | nil => rfl
  | append_singleton cs c ih =>
      rw [offsets_concat, List.length_append, ih, List.countP_append, List.countP_singleton]
      split <;> rfl

/-- A line feed. -/
def isFeed (c : Char) : Bool := c == '\n'

/-- The characters after the last line feed are those whose offset is greater than that of any. -/
theorem length_rtakeWhile (cs : List Char) : (cs.rtakeWhile (· ≠ '\n')).length =
    (offsets (fun _ => true) cs).countP fun i => ∀ j ∈ offsets isFeed cs, j < i := by
  induction cs using List.reverseRecOn with
  | nil => rfl
  | append_singleton cs c ih =>
      rw [offsets_concat, offsets_concat, if_pos rfl]
      by_cases hfeed : c = '\n'
      · have his : isFeed c = true := beq_iff_eq.2 hfeed
        rw [List.rtakeWhile_concat_neg _ _ _ (by simpa using hfeed), if_pos his]
        refine (List.countP_eq_zero.2 fun i hi hlater => ?_).symm
        have hlt : size cs < i := of_decide_eq_true hlater _ (by simp)
        rcases List.mem_append.1 hi with hi | hi
        · exact Nat.lt_asymm hlt (lt_of_mem_offsets hi)
        · exact Nat.ne_of_gt hlt (List.mem_singleton.1 hi)
      · have hnot : isFeed c ≠ true := mt beq_iff_eq.1 hfeed
        rw [List.rtakeWhile_concat_pos _ _ _ (by simpa using hfeed), if_neg hnot, List.append_nil,
          List.length_append, ih, List.countP_append, List.countP_singleton]
        rw [if_pos (decide_eq_true fun j => lt_of_mem_offsets)]
        rfl

end Text

/-- The location of an offset by the offsets of the characters: the line is one more than the number
of line feeds before the offset, the column one more than the number of characters that begin before
it and after all these. -/
def Location.counted (cs : List Char) (n : Nat) : Location where
  line := 1 + (offsets isFeed cs).countP (· < n)
  column := 1 + (offsets (fun _ => true) cs).countP fun i =>
    i < n ∧ ∀ j ∈ offsets isFeed cs, j < n → j < i

theorem Location.behind_begun (cs : List Char) (n : Nat) :
    Location.behind (begun n cs) = .counted cs n := by
  have hline : (begun n cs).count '\n' = (offsets isFeed cs).countP (· < n) := by
    rw [List.countP_eq_length_filter, ← offsets_begun, length_offsets]
    rfl
  have hcolumn : ((begun n cs).rtakeWhile (· ≠ '\n')).length =
      (offsets (fun _ => true) cs).countP fun i =>
        i < n ∧ ∀ j ∈ offsets isFeed cs, j < n → j < i := by
    rw [length_rtakeWhile, offsets_begun, offsets_begun, List.countP_filter]
    refine List.countP_congr fun i _ => ?_
    simp only [List.mem_filter, Bool.and_eq_true, decide_eq_true_eq, and_imp]
    exact and_comm
  rw [behind, hline, hcolumn, counted, Nat.add_comm 1, Nat.add_comm 1]

/-! ## From a location back to the offset -/

/-- Goes on from `l`, the location at the offset `n`, until the location is `target`. -/
def Location.seek? (target : Location) : List Char → Location → Nat → Option Nat
  | [], l, n => if l = target then some n else none
  | c :: cs, l, n =>
    if l = target then some n else seek? target cs (l.after c) (n + c.utf8Size)

theorem Location.seek?_eq_some {target : Location} (cs : List Char) : ∀ {l : Location} {n m : Nat},
    target.seek? cs l n = some m ↔
      ∃ taken rest, cs = taken ++ rest ∧ taken.foldl after l = target ∧ m = n + size taken := by
  induction cs with
  | nil =>
      intro l n m
      rw [seek?]
      constructor
      · intro h
        split at h
        · rename_i hl
          cases h
          exact ⟨[], [], rfl, hl, rfl⟩
        · cases h
      · rintro ⟨taken, rest, hnil, htaken, rfl⟩
        obtain ⟨rfl, rfl⟩ := List.append_eq_nil_iff.1 hnil.symm
        exact if_pos htaken
  | cons c cs ih =>
      intro l n m
      rw [seek?]
      -- a location that is left does not come again
      have hpast (taken : List Char) : (c :: taken).foldl after l ≠ l := by
        intro h
        have hlt := lt_of_lt_of_le (lt_after l c) (le_foldl_after taken (l.after c))
        rw [← List.foldl_cons, h] at hlt
        exact lt_irrefl _ hlt
      constructor
      · intro h
        split at h
        · rename_i hl
          cases h
          exact ⟨[], c :: cs, rfl, hl, rfl⟩
        · obtain ⟨taken, rest, rfl, htaken, rfl⟩ := ih.1 h
          exact ⟨c :: taken, rest, rfl, htaken, by rw [size_cons, Nat.add_assoc]⟩
      · rintro ⟨taken, rest, hcs, htaken, rfl⟩
        cases taken with
        | nil => exact if_pos htaken
        | cons d taken =>
            cases hcs
            have hne : l ≠ target := fun h => hpast taken (htaken.trans h.symm)
            rw [if_neg hne]
            exact ih.2 ⟨taken, rest, rfl, htaken, by rw [size_cons, Nat.add_assoc]⟩

/-- The offset of a location in the text. -/
def Source.offset? (s : Source) (l : Location) : Option Nat := l.seek? s.chars .first 0

theorem Source.offset?_eq_some {s : Source} {l : Location} {n : Nat} :
    s.offset? l = some n ↔ Boundary s.chars n ∧ s.location n = l := by
  rw [offset?, Location.seek?_eq_some]
  constructor
  · rintro ⟨taken, rest, hchars, rfl, rfl⟩
    rw [Nat.zero_add, location_eq hchars]
    exact ⟨⟨taken, rest, hchars, rfl⟩, (Location.foldl_after_behind taken []).symm⟩
  · rintro ⟨⟨taken, rest, hchars, rfl⟩, rfl⟩
    rw [location_eq hchars]
    exact ⟨taken, rest, hchars, Location.foldl_after_behind taken [], (Nat.zero_add _).symm⟩

/-! ## Counting in bytes -/

namespace Text

/-- The bytes from the offset `i` to the offset `j`. -/
def range? (bs : List UInt8) (i j : Nat) : Option (List UInt8) :=
  if i ≤ j ∧ j ≤ bs.length then some ((bs.take j).drop i) else none

/-- Goes through bytes from the offset `i` on, with the line there and the offset where the line
starts. -/
def lineFrom : List UInt8 → (i line start : Nat) → Nat × Nat
  | [], _, line, start => (line, start)
  | b :: bs, i, line, start =>
    if b = '\n'.toUInt8 then lineFrom bs (i + 1) (line + 1) (i + 1)
    else lineFrom bs (i + 1) line start

/-- Where the last line of some bytes starts. -/
def lineStart (bs : List UInt8) : Nat := (bs.rdropWhile (· ≠ '\n'.toUInt8)).length

theorem lineStart_le (bs : List UInt8) : lineStart bs ≤ bs.length :=
  List.IsPrefix.length_le <| List.rdropWhile_prefix _ bs

theorem drop_lineStart (bs : List UInt8) :
    bs.drop (lineStart bs) = bs.rtakeWhile (· ≠ '\n'.toUInt8) := by
  have hdrop : (bs.rdropWhile (· ≠ '\n'.toUInt8) ++ bs.rtakeWhile (· ≠ '\n'.toUInt8)).drop
      (lineStart bs) = bs.rtakeWhile (· ≠ '\n'.toUInt8) := List.drop_left
  rwa [List.rdropWhile_append_rtakeWhile] at hdrop

/-- The line is counted and its start kept in one pass. -/
theorem lineFrom_eq (bs : List UInt8) : ∀ before : List UInt8,
    lineFrom bs before.length (before.count '\n'.toUInt8 + 1) (lineStart before) =
      ((before ++ bs).count '\n'.toUInt8 + 1, lineStart (before ++ bs)) := by
  induction bs with
  | nil => exact fun before => by rw [List.append_nil, lineFrom]
  | cons b bs ih =>
      intro before
      have hnext := ih (before ++ [b])
      rw [List.append_assoc, List.singleton_append, List.length_append, List.length_singleton,
        List.count_append] at hnext
      rw [← hnext, lineFrom]
      by_cases hfeed : b = '\n'.toUInt8
      · rw [if_pos hfeed, lineStart, List.rdropWhile_concat_neg _ _ _ (by simpa using hfeed),
          List.length_append, hfeed]
        rfl
      · have hcount : [b].count '\n'.toUInt8 = 0 :=
          List.count_eq_zero.2 (by simpa using Ne.symm hfeed)
        rw [if_neg hfeed, lineStart, lineStart,
          List.rdropWhile_concat_pos _ _ _ (by simpa using hfeed), hcount, Nat.add_zero]

end Text

namespace Location

/-- The location behind some bytes: their line feeds, and the characters that begin after the last
of them. -/
def behindBytes (before : List UInt8) : Location :=
  ⟨before.count '\n'.toUInt8 + 1,
    (before.rtakeWhile (· ≠ '\n'.toUInt8)).countP isLeading + 1⟩

/-- A byte that is no line feed counts if it begins a character. -/
theorem behindBytes_concat_of_ne {before : List UInt8} {b : UInt8} (h : b ≠ '\n'.toUInt8) :
    behindBytes (before ++ [b]) =
      ⟨(behindBytes before).line, (behindBytes before).column + if isLeading b then 1 else 0⟩ := by
  have hcount : [b].count '\n'.toUInt8 = 0 := List.count_eq_zero.2 (by simpa using h.symm)
  rw [behindBytes, behindBytes, List.count_append, hcount,
    List.rtakeWhile_concat_pos _ _ _ (by simpa using h), List.countP_append, List.countP_singleton,
    Nat.add_zero, Nat.add_right_comm]

/-- Bytes in the middle of a character do not count. -/
theorem behindBytes_append {before bs : List UInt8} (h : ∀ b ∈ bs, isLeading b = false) :
    behindBytes (before ++ bs) = behindBytes before := by
  induction bs using List.reverseRecOn with
  | nil => rw [List.append_nil]
  | append_singleton bs b ih =>
      obtain ⟨hbs, hb⟩ := List.forall_mem_append.1 h
      have hfalse : isLeading b = false := hb b (List.mem_singleton_self b)
      have hne : b ≠ '\n'.toUInt8 := by
        rintro rfl
        cases hfalse
      rw [← List.append_assoc, behindBytes_concat_of_ne hne, ih hbs, hfalse]
      rfl

/-- The first byte of a character counts as the character. -/
theorem behindBytes_concat {before : List UInt8} {b : UInt8} {c : Char} (hb : isLeading b = true)
    (hfeed : b = '\n'.toUInt8 ↔ c = '\n') :
    behindBytes (before ++ [b]) = (behindBytes before).after c := by
  rw [after]
  by_cases hc : c = '\n'
  · rw [if_pos hc, hfeed.2 hc, behindBytes, behindBytes, List.count_append,
      List.rtakeWhile_concat_neg _ _ _ (by simp)]
    rfl
  · rw [if_neg hc, behindBytes_concat_of_ne (mt hfeed.1 hc), hb]
    rfl

/-- As soon as a character has begun it counts. -/
theorem behindBytes_encodeChar (before : List UInt8) (c : Char) {n : Nat} (hn : n ≠ 0) :
    behindBytes (before ++ (String.utf8EncodeChar c).take n) = (behindBytes before).after c := by
  obtain ⟨first, rest, hbytes, hleading, hfeed, hrest⟩ := encodeChar_leading c
  obtain ⟨n, rfl⟩ := Nat.exists_eq_succ_of_ne_zero hn
  rw [hbytes, List.take_succ_cons, ← List.singleton_append, ← List.append_assoc,
    behindBytes_append fun b hb => hrest b (List.mem_of_mem_take hb), behindBytes_concat hleading hfeed]

theorem behindBytes_take (cs : List Char) : ∀ (before : List UInt8) (n : Nat),
    behindBytes (before ++ (bytes cs).take n) = (begun n cs).foldl after (behindBytes before) := by
  induction cs with
  | nil => exact fun before n => by rw [bytes, List.flatMap_nil, List.take_nil, List.append_nil]; rfl
  | cons c cs ih =>
      intro before n
      rw [begun]
      split
      · rename_i hn
        rw [hn, List.take_zero, List.append_nil]
        rfl
      · rename_i hn
        rw [bytes_cons, List.take_append, String.length_utf8EncodeChar, ← List.append_assoc, ih,
          behindBytes_encodeChar before c hn, List.foldl_cons]

end Location

/-- The line and column of a byte offset, counted in the bytes of the text. -/
def Source.locate (s : Source) (offset : Nat) : Option Location := do
  let bs := bytes s.chars
  let stop := min offset bs.length
  let before ← range? bs 0 stop
  let (line, start) := lineFrom before 0 1 0
  let last ← range? bs start stop
  return ⟨line, last.countP isLeading + 1⟩

/-- The bytes before the offset are in range, and so is the start of the last line in them. -/
theorem Source.locate_eq (s : Source) (n : Nat) : s.locate n = some (s.location n) := by
  have hstop : min n (bytes s.chars).length ≤ (bytes s.chars).length := Nat.min_le_right _ _
  have hbehind : Location.behindBytes ((bytes s.chars).take (min n (bytes s.chars).length)) =
      s.location n := by
    have htake := Location.behindBytes_take s.chars [] (min n (size s.chars))
    rw [List.nil_append, begun_min] at htake
    rw [length_bytes, htake, location_begun]
    exact Location.foldl_after_behind _ []
  rw [locate]
  generalize min n (bytes s.chars).length = stop at hstop hbehind
  have hbefore : range? (bytes s.chars) 0 stop = some ((bytes s.chars).take stop) := by
    rw [range?, if_pos ⟨Nat.zero_le _, hstop⟩, List.drop_zero]
  have hlength : ((bytes s.chars).take stop).length = stop := List.length_take_of_le hstop
  have hline : lineFrom ((bytes s.chars).take stop) 0 1 0 =
      (((bytes s.chars).take stop).count '\n'.toUInt8 + 1, lineStart ((bytes s.chars).take stop)) :=
    lineFrom_eq ((bytes s.chars).take stop) []
  have hlast : range? (bytes s.chars) (lineStart ((bytes s.chars).take stop)) stop =
      some (((bytes s.chars).take stop).rtakeWhile (· ≠ '\n'.toUInt8)) := by
    have hle := lineStart_le ((bytes s.chars).take stop)
    rw [hlength] at hle
    rw [range?, if_pos ⟨hle, hstop⟩, drop_lineStart]
  simp only [hbefore, hline, hlast, Option.bind_eq_bind, Option.bind_some]
  exact congrArg some hbehind

/-! ## Offsets and locations -/

/-- Offsets that are further on have locations further on, or the same past the end and inside a
character; places between characters have different ones and are found from them again.  The
location counts the characters before the offset, and is the one that counting in bytes gives. -/
theorem Source.location_corresponds (s : Source) :
    Monotone (fun n => (s.location n).order) ∧
    (∀ n, size s.chars ≤ n → s.location n = s.location (size s.chars)) ∧
    StrictMonoOn (fun n => (s.location n).order) {n | Boundary s.chars n} ∧
    Set.InjOn s.location {n | Boundary s.chars n} ∧
    (∀ n, s.location n = .counted s.chars (min n (size s.chars))) ∧
    (∀ l n, s.offset? l = some n ↔ Boundary s.chars n ∧ s.location n = l) ∧
    ∀ n, s.locate n = some (s.location n) := by
  refine ⟨fun _ _ => location_le, fun _ => location_of_size_le, ?_, s.location_injOn, ?_,
    fun _ _ => offset?_eq_some, s.locate_eq⟩
  · intro n hn m hm h
    exact location_lt hn hm h
  · intro n
    rw [location_begun, ← begun_min, Location.behind_begun]

namespace Verse

/-- Three lines; a letter of two bytes ends the second. -/
def verse : Source := .ofString "verse" "ab\ncdé\nf"

/-- The theorem at the verse: an offset inside the letter is as one behind it, and only the latter is
found again. -/
theorem location_corresponds_verse :
    (Boundary verse.chars 5 ∧ Boundary verse.chars 7 ∧ size verse.chars ≤ 100) ∧
    [5, 6, 7, 8, 100].map verse.location = [⟨2, 3⟩, ⟨2, 4⟩, ⟨2, 4⟩, ⟨3, 1⟩, ⟨3, 2⟩] ∧
    (verse.location 5).order < (verse.location 7).order ∧
    verse.location 100 = verse.location (size verse.chars) ∧ verse.offset? ⟨2, 4⟩ = some 7 := by
  have hletter : Boundary verse.chars 5 := ⟨"ab\ncd".toList, "é\nf".toList, by decide, by decide⟩
  have hbehind : Boundary verse.chars 7 := ⟨"ab\ncdé".toList, "\nf".toList, by decide, by decide⟩
  have hend : size verse.chars ≤ 100 := by decide
  obtain ⟨-, hconstant, hstrict, -, -, hfound, -⟩ := verse.location_corresponds
  refine ⟨⟨hletter, hbehind, hend⟩, by decide, hstrict hletter hbehind (by decide),
    hconstant 100 hend, ?_⟩
  exact (hfound ⟨2, 4⟩ 7).2 ⟨hbehind, by decide⟩

end Verse

end TypedTemplate
