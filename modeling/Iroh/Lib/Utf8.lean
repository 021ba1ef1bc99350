import Mathlib

/-! The UTF-8 bytes of a string, as a list.

A string is valid UTF-8, and its bytes are the encodings of its characters one after the
other (`toList_data_toUTF8`): so the bytes of two strings appended are their bytes
appended (`toList_data_toUTF8_append`), and decoding a string's bytes gives the string
back (`fromUTF8?_toUTF8`). A byte below 128 is a whole character, since every byte of a
longer encoding has its top bit set: a string's byte below 128 is one of its characters
(`exists_char_of_mem`). -/

namespace Utf8

open String

theorem toList_data_toUTF8 (s : String) :
    s.toUTF8.data.toList = s.toList.flatMap utf8EncodeChar := by
  rw [String.toUTF8, ← String.utf8Encode_toList, List.utf8Encode, List.data_toByteArray]

theorem toList_data_toUTF8_append (s t : String) :
    (s ++ t).toUTF8.data.toList = s.toUTF8.data.toList ++ t.toUTF8.data.toList := by
  rw [toList_data_toUTF8, toList_data_toUTF8, toList_data_toUTF8, String.toList_append,
    List.flatMap_append]

theorem fromUTF8?_toUTF8 (s : String) : String.fromUTF8? s.toUTF8 = some s := by
  unfold String.fromUTF8?
  rw [dif_pos (show s.toUTF8.IsValidUTF8 from s.isValidUTF8)]
  rfl

/-- A byte below 128 in a character's encoding is the whole character. -/
theorem val_of_mem_utf8EncodeChar {c : Char} {b : UInt8} (hb : b ∈ utf8EncodeChar c)
    (hlt : b.toNat < 128) : c.val.toNat = b.toNat := by
  have high : ∀ x y : UInt8, 128 ≤ y.toNat → 128 ≤ (x ||| y).toNat := fun x y hy => by
    rw [UInt8.toNat_or]
    exact le_trans hy Nat.right_le_or
  have hpos := c.utf8Size_pos
  have hle := c.utf8Size_le_four
  obtain h | h | h | h : c.utf8Size = 1 ∨ c.utf8Size = 2 ∨ c.utf8Size = 3 ∨ c.utf8Size = 4 := by
    omega
  · rw [utf8EncodeChar_eq_singleton h, List.mem_singleton] at hb
    subst hb
    have hc : c.val.toNat ≤ 127 := by
      simpa [UInt32.le_iff_toNat_le] using Char.utf8Size_eq_one_iff.mp h
    rw [UInt32.toNat_toUInt8, Nat.mod_eq_of_lt (by omega)]
  · rw [utf8EncodeChar_eq_cons_cons h] at hb
    simp only [List.mem_cons, List.not_mem_nil, or_false] at hb
    rcases hb with rfl | rfl <;> exact absurd hlt (not_lt.mpr (high _ _ (by decide)))
  · rw [utf8EncodeChar_eq_cons_cons_cons h] at hb
    simp only [List.mem_cons, List.not_mem_nil, or_false] at hb
    rcases hb with rfl | rfl | rfl <;> exact absurd hlt (not_lt.mpr (high _ _ (by decide)))
  · rw [utf8EncodeChar_eq_cons_cons_cons_cons h] at hb
    simp only [List.mem_cons, List.not_mem_nil, or_false] at hb
    rcases hb with rfl | rfl | rfl | rfl <;> exact absurd hlt (not_lt.mpr (high _ _ (by decide)))

/-- A byte below 128 among a string's bytes is one of its characters. -/
theorem exists_char_of_mem {s : String} {b : UInt8} (hb : b ∈ s.toUTF8.data.toList)
    (hlt : b.toNat < 128) : ∃ c ∈ s.toList, c.val.toNat = b.toNat := by
  rw [toList_data_toUTF8, List.mem_flatMap] at hb
  obtain ⟨c, hc, hb⟩ := hb
  exact ⟨c, hc, val_of_mem_utf8EncodeChar hb hlt⟩

end Utf8
