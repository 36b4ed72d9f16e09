/-
# `TypedTemplate.Proofs.Text.Bytes` — a text as the bytes of its characters

A reader that goes through a text byte by byte knows two things about them.  A character up to
127 is one byte, its own number; every other character is a byte from 192 on and then bytes
from 128 up to 191 (`encodeChar_cases`).  So no byte of a longer character is that of a short
one, and the two upper bits tell the first byte of a character from the others
(`isLeading_eq_false`).
-/
import TypedTemplate.Proofs.Text.Slice

namespace TypedTemplate.Text

/-- The bytes of a text. -/
def bytes (cs : List Char) : List UInt8 := cs.flatMap String.utf8EncodeChar

theorem bytes_cons (c : Char) (cs : List Char) :
    bytes (c :: cs) = String.utf8EncodeChar c ++ bytes cs := List.flatMap_cons

theorem length_bytes (cs : List Char) : (bytes cs).length = size cs := by
  induction cs with
  | nil => rfl
  | cons c cs ih => rw [bytes_cons, List.length_append, String.length_utf8EncodeChar, ih, size_cons]

theorem toNat_ofNat_add {a k n : Nat} (hk : 0 < k) (h : k + n ≤ 256) :
    (UInt8.ofNat (a % k + n)).toNat = a % k + n := by
  have hlt := Nat.mod_lt a hk
  rw [UInt8.toNat_ofNat', Nat.mod_eq_of_lt (by omega)]

/-- A short character is one byte, and of a longer one the first byte stands out. -/
theorem encodeChar_cases (c : Char) :
    (c.toNat ≤ 127 ∧ String.utf8EncodeChar c = [.ofNat c.toNat]) ∨
      ∃ first rest, String.utf8EncodeChar c = first :: rest ∧ 127 < c.toNat ∧ 192 ≤ first.toNat ∧
        ∀ b ∈ rest, 128 ≤ b.toNat ∧ b.toNat < 192 := by
  have hlater (a : Nat) : 128 ≤ (UInt8.ofNat (a % 64 + 128)).toNat ∧
      (UInt8.ofNat (a % 64 + 128)).toNat < 192 := by
    rw [toNat_ofNat_add (by decide) (by decide)]
    omega
  have hfirst {a k n : Nat} (hn : 192 ≤ n) (hk : 0 < k) (h : k + n ≤ 256) :
      192 ≤ (UInt8.ofNat (a % k + n)).toNat := by
    rw [toNat_ofNat_add hk h]
    omega
  rw [String.utf8EncodeChar]
  by_cases hshort : c.val.toNat ≤ 127
  · exact Or.inl ⟨hshort, if_pos hshort⟩
  · have hlong : 127 < c.toNat := Nat.lt_of_not_le hshort
    simp only [if_neg hshort]
    refine Or.inr ?_
    -- two, three or four bytes
    split
    · refine ⟨_, _, rfl, hlong, hfirst (by decide) (by decide) (by decide), ?_⟩
      simpa using hlater _
    · split
      · refine ⟨_, _, rfl, hlong, hfirst (by decide) (by decide) (by decide), ?_⟩
        simpa using ⟨hlater _, hlater _⟩
      · refine ⟨_, _, rfl, hlong, hfirst (by decide) (by decide) (by decide), ?_⟩
        simpa using ⟨hlater _, hlater _, hlater _⟩

/-- The byte is not in the middle of a character. -/
def isLeading (b : UInt8) : Bool := b &&& 0xC0 != 0x80

theorem isLeading_eq_false {b : UInt8} :
    isLeading b = false ↔ 128 ≤ b.toNat ∧ b.toNat < 192 := by
  have htable : ∀ n : Fin 256, isLeading (.ofNat n) = false ↔ 128 ≤ n.val ∧ n.val < 192 := by
    decide +kernel
  have hb := htable ⟨b.toNat, b.toNat_lt⟩
  rwa [UInt8.ofNat_toNat] at hb

/-- Exactly the first byte of a character is leading, and only of a line feed it is that of one. -/
theorem encodeChar_leading (c : Char) : ∃ first rest, String.utf8EncodeChar c = first :: rest ∧
    isLeading first = true ∧ (first = '\n'.toUInt8 ↔ c = '\n') ∧
      ∀ b ∈ rest, isLeading b = false := by
  rcases encodeChar_cases c with ⟨hshort, hbytes⟩ | ⟨first, rest, hbytes, hlong, hfirst, hrest⟩
  · have htoNat : (UInt8.ofNat c.toNat).toNat = c.toNat := by
      rw [UInt8.toNat_ofNat', Nat.mod_eq_of_lt (by omega)]
    refine ⟨_, [], hbytes, ?_, ?_, List.forall_mem_nil _⟩
    · rw [← Bool.not_eq_false, isLeading_eq_false, htoNat]
      omega
    · rw [← UInt8.toNat_inj, htoNat]
      exact ⟨fun h => Char.toNat_inj.1 h, fun h => by rw [h]; rfl⟩
  · refine ⟨first, rest, hbytes, ?_, ?_, fun b hb => isLeading_eq_false.2 (hrest b hb)⟩
    · rw [← Bool.not_eq_false, isLeading_eq_false]
      omega
    · constructor
      · rintro rfl
        exact absurd hfirst (by decide)
      · rintro rfl
        exact absurd hlong (by decide)

end TypedTemplate.Text
