import Mathlib.Data.String.Basic
import RdfMapping.Statement.Percent

/-!
The order of texts, character by character and byte by byte.

Texts are ordered by the numbers of their characters. In UTF-8 a smaller character has a smaller byte at
the first place where the bytes differ: where the first bytes are of one form, the bytes are digits of the
numbers (`digits_lt`), and longer forms have greater first bytes (`utf8EncodeChar_lt`). So the bytes of
texts, compared one by one, are ordered as the texts are (`utf8_lt_iff`).
-/

namespace RdfMapping

namespace Percent

/-- Numbers are ordered as their digits to the base 64 are, of which the first takes what is left. -/
theorem digits_lt {m n : Nat} (h : m < n) :
    m / 262144 < n / 262144 ∨ m / 262144 = n / 262144 ∧
      (m / 4096 % 64 < n / 4096 % 64 ∨ m / 4096 % 64 = n / 4096 % 64 ∧
        (m / 64 % 64 < n / 64 % 64 ∨ m / 64 % 64 = n / 64 % 64 ∧ m % 64 < n % 64)) := by
  have digits : ∀ k, k = ((k / 262144 * 64 + k / 4096 % 64) * 64 + k / 64 % 64) * 64 + k % 64 := by
    intro k
    omega
  have small : ∀ k, k / 4096 % 64 < 64 ∧ k / 64 % 64 < 64 ∧ k % 64 < 64 := by
    intro k
    omega
  have sumM := digits m
  have sumN := digits n
  have boundM := small m
  have boundN := small n
  -- for what is left the digits are any numbers below 64
  generalize m / 262144 = a, m / 4096 % 64 = b, m / 64 % 64 = c, m % 64 = d at *
  generalize n / 262144 = a', n / 4096 % 64 = b', n / 64 % 64 = c', n % 64 = d' at *
  omega

theorem utf8EncodeChar_lt {c d : Char} (h : c < d) (rest rest' : List UInt8) :
    String.utf8EncodeChar c ++ rest < String.utf8EncodeChar d ++ rest' := by
  have less : c.val.toNat < d.val.toNat := h
  have bound : d.val.toNat < 0x110000 := by
    have := d.valid
    simp only [UInt32.isValidChar, Nat.isValidChar] at this
    omega
  have digits := digits_lt less
  have byte : ∀ {k : Nat}, k < 256 → (UInt8.ofNat k).toNat = k := UInt8.toNat_ofNat_of_lt'
  have lead : ∀ {k : Nat}, k < 0x110000 → k / 262144 % 8 = k / 262144 := by
    intro k hk
    omega
  simp only [String.utf8EncodeChar]
  generalize c.val.toNat = m, d.val.toNat = n at *
  -- a case for each two forms; the ranges of the numbers rule out that the first is the longer one
  split_ifs <;> simp (disch := omega) only [List.cons_append, List.nil_append, List.cons_lt_cons_iff,
    UInt8.lt_iff_toNat_lt, ← UInt8.toNat_inj, byte, lead] <;> omega

theorem flatMap_utf8EncodeChar_lt {l m : List Char} (h : l < m) :
    l.flatMap String.utf8EncodeChar < m.flatMap String.utf8EncodeChar := by
  induction l generalizing m with
  | nil =>
    cases m with
    | nil => exact absurd h (List.lt_irrefl [])
    | cons d m =>
      rw [List.flatMap_nil, List.flatMap_cons]
      cases first : String.utf8EncodeChar d with
      | nil =>
        have size := d.utf8Size_pos
        rw [← String.length_utf8EncodeChar, first] at size
        exact absurd size (Nat.lt_irrefl 0)
      | cons b bytes => exact List.nil_lt_cons b _
  | cons c l ih =>
    cases m with
    | nil => exact absurd h (List.not_lt_nil _)
    | cons d m =>
      rw [List.flatMap_cons, List.flatMap_cons]
      rcases List.cons_lt_cons_iff.mp h with less | ⟨rfl, less⟩
      · exact utf8EncodeChar_lt less _ _
      · exact List.append_left_lt (ih less)

/-- The bytes of texts are ordered as the texts are. -/
theorem utf8_lt_iff {s t : String} : utf8 s < utf8 t ↔ s < t := by
  have kept : ∀ {s t : String}, s < t → utf8 s < utf8 t :=
    fun h => flatMap_utf8EncodeChar_lt (String.lt_iff_toList_lt.mp h)
  refine ⟨?_, kept⟩
  intro bytes
  rcases lt_trichotomy s t with less | rfl | greater
  · exact less
  · exact absurd bytes (List.lt_irrefl _)
  · exact absurd bytes (List.lt_asymm (kept greater))

end Percent

end RdfMapping
