import Federation.Provider
import Mathlib.Data.String.Basic

/-!
# The order of identifiers

Identifiers are compared by their characters. Comparing the octets of their UTF-8 encoding instead
gives the same order, since a greater character has a greater encoding, and none has an encoding
that begins with that of another.
-/

namespace Federation

namespace Text

theorem octet_cons_lt_cons {m n : Nat} (hm : m < 256) (hn : n < 256) {x y : List UInt8} :
    UInt8.ofNat m :: x < UInt8.ofNat n :: y ↔ m < n ∨ m = n ∧ x < y := by
  have hlt : UInt8.ofNat m < UInt8.ofNat n ↔ m < n := by
    rw [UInt8.lt_iff_toNat_lt, UInt8.toNat_ofNat_of_lt' hm, UInt8.toNat_ofNat_of_lt' hn]
  have heq : UInt8.ofNat m = UInt8.ofNat n ↔ m = n := by
    rw [← UInt8.toNat_inj, UInt8.toNat_ofNat_of_lt' hm, UInt8.toNat_ofNat_of_lt' hn]
  rw [List.cons_lt_cons_iff, hlt, heq]

/-- An encoded character comes before every text that begins with a greater one. -/
theorem utf8EncodeChar_append_lt {c d : Char} (h : c < d) (x y : List UInt8) :
    String.utf8EncodeChar c ++ x < String.utf8EncodeChar d ++ y := by
  have hval : c.val.toNat < d.val.toNat := UInt32.lt_iff_toNat_lt.1 (Char.lt_def.1 h)
  have hmax : d.val.toNat < 0x110000 := by
    rcases d.valid with hlow | ⟨_, hhigh⟩
    · exact Nat.lt_trans hlow (by decide)
    · exact hhigh
  -- an octet holds six bits of what is left after the division before it
  have twelve : ∀ k, k / 4096 = k / 64 / 64 := fun k => by rw [Nat.div_div_eq_div_mul]
  have eighteen : ∀ k, k / 262144 = k / 64 / 64 / 64 := fun k => by
    rw [Nat.div_div_eq_div_mul, Nat.div_div_eq_div_mul]
  unfold String.utf8EncodeChar
  generalize c.val.toNat = m at hval
  generalize d.val.toNat = n at hval hmax
  simp only [twelve, eighteen]
  -- the encodings have the same length, or the greater character has the longer one
  split_ifs <;> simp only [List.cons_append, List.nil_append] <;>
    simp (disch := omega) only [octet_cons_lt_cons] <;> omega

theorem flatMap_utf8EncodeChar_lt {l m : List Char} (h : l < m) :
    l.flatMap String.utf8EncodeChar < m.flatMap String.utf8EncodeChar := by
  rw [← List.lex_lt] at h
  induction h with
  | @nil d rest =>
    rw [List.flatMap_nil, List.flatMap_cons]
    have hne : String.utf8EncodeChar d ≠ [] := String.utf8EncodeChar_ne_nil
    cases hd : String.utf8EncodeChar d with
    | nil => exact absurd hd hne
    | cons b bs => exact List.nil_lt_cons b _
  | @cons c l m _ ih =>
    rw [List.flatMap_cons, List.flatMap_cons]
    exact List.append_left_lt ih
  | rel hlt =>
    rw [List.flatMap_cons, List.flatMap_cons]
    exact utf8EncodeChar_append_lt hlt _ _

theorem octets_eq_flatMap (s : String) :
    s.toUTF8.data.toList = s.toList.flatMap String.utf8EncodeChar := by
  rw [String.toUTF8_eq_toByteArray, ← String.utf8Encode_toList, List.utf8Encode]
  simp

end Text

namespace ProviderId

/-- The octets of an identifier in UTF-8. -/
def octets (id : ProviderId) : List UInt8 :=
  id.text.toUTF8.data.toList

theorem octets_lt_of_lt {a b : ProviderId} (h : a < b) : a.octets < b.octets := by
  rw [octets, octets, Text.octets_eq_flatMap, Text.octets_eq_flatMap]
  exact Text.flatMap_utf8EncodeChar_lt h

/-- Identifiers have the order of their octets. -/
theorem octets_lt_iff {a b : ProviderId} : a.octets < b.octets ↔ a < b := by
  constructor
  · intro h
    by_contra hnot
    have hle : b ≤ a := Std.not_lt.1 hnot
    by_cases heq : b = a
    · subst heq
      exact List.lt_irrefl _ h
    · exact List.lt_asymm h (octets_lt_of_lt (Std.lt_of_le_of_ne hle heq))
  · exact octets_lt_of_lt

theorem octets_le_iff {a b : ProviderId} : a.octets ≤ b.octets ↔ a ≤ b := by
  rw [← Std.not_lt, ← Std.not_lt, octets_lt_iff]

end ProviderId

end Federation
