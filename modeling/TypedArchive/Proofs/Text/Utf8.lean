import Mathlib.Data.List.Basic
import TypedArchive.Proofs.Schema.Bytes

/-! Bytes that encode characters. They can be cut at each byte that is a character by itself. -/

namespace TypedArchive.Text.Utf8

/-- The bytes of some characters, one after the other. -/
def Encoded (bytes : List UInt8) : Prop :=
  ∃ cs : List Char, bytes = cs.flatMap String.utf8EncodeChar

theorem encoded_nil : Encoded [] := ⟨[], rfl⟩

theorem encoded_char (c : Char) : Encoded (String.utf8EncodeChar c) :=
  ⟨[c], (List.flatMap_singleton ..).symm⟩

/-- A byte below 128 is a character by itself. -/
theorem encoded_byte {b : UInt8} (low : b < 128) : Encoded [b] := by
  have small : b.toNat < 128 := UInt8.lt_iff_toNat_lt.mp low
  have valid : b.toNat.isValidChar := .inl (by omega)
  have value : (Char.ofNat b.toNat).val.toNat = b.toNat := by
    rw [Char.ofNat, dif_pos valid]
    rfl
  have char : String.utf8EncodeChar (Char.ofNat b.toNat) = [b] := by
    rw [String.utf8EncodeChar, value, if_pos (Nat.le_of_lt_succ small), UInt8.ofNat_toNat]
  exact char ▸ encoded_char _

theorem Encoded.append {bytes more : List UInt8} (h : Encoded bytes) (h' : Encoded more) :
    Encoded (bytes ++ more) := by
  obtain ⟨cs, rfl⟩ := h
  obtain ⟨cs', rfl⟩ := h'
  exact ⟨cs ++ cs', List.flatMap_append.symm⟩

theorem toList_utf8Encode (cs : List Char) :
    cs.utf8Encode.data.toList = cs.flatMap String.utf8EncodeChar := by
  rw [List.utf8Encode, List.toList_data_toByteArray]

theorem encoded_text (text : String) : Encoded text.toUTF8.toList := by
  refine ⟨text.toList, ?_⟩
  rw [toList_eq, String.toUTF8_eq_toByteArray, ← String.utf8Encode_toList, toList_utf8Encode]

/-- Encoded bytes are the bytes of a text. -/
theorem Encoded.exists_text {bytes : List UInt8} (h : Encoded bytes) :
    ∃ text, String.fromUTF8? ⟨bytes.toArray⟩ = some text := by
  obtain ⟨cs, rfl⟩ := h
  have same : (⟨(cs.flatMap String.utf8EncodeChar).toArray⟩ : ByteArray) = cs.utf8Encode := by
    refine ByteArray.ext (Array.toList_inj.mp ?_)
    rw [toList_utf8Encode]
  have valid : (⟨(cs.flatMap String.utf8EncodeChar).toArray⟩ : ByteArray).IsValidUTF8 :=
    same ▸ ByteArray.isValidUTF8_utf8Encode
  exact ⟨_, dif_pos valid⟩

/-- A byte below 128 is the only one of its character. -/
theorem eq_singleton_of_mem {c : Char} {b : UInt8} (mem : b ∈ String.utf8EncodeChar c)
    (low : b < 128) : String.utf8EncodeChar c = [b] := by
  have high {n : Nat} (bounds : 128 ≤ n ∧ n < 256) : b ≠ UInt8.ofNat n := by
    rintro rfl
    rw [UInt8.lt_iff_toNat_lt, UInt8.toNat_ofNat_of_lt' bounds.2] at low
    exact Nat.not_lt_of_le bounds.1 low
  rw [String.utf8EncodeChar] at mem ⊢
  split_ifs at mem ⊢ with one two three
  · rw [List.mem_singleton.mp mem]
  all_goals
    simp only [List.mem_cons, List.not_mem_nil, or_false] at mem
    exfalso
  · rcases mem with eq | eq <;> exact high (by omega) eq
  · rcases mem with eq | eq | eq <;> exact high (by omega) eq
  · rcases mem with eq | eq | eq | eq <;> exact high (by omega) eq

/-- Encoded bytes are encoded on both sides of a byte below 128. -/
theorem Encoded.split {before after : List UInt8} {b : UInt8} (low : b < 128)
    (h : Encoded (before ++ b :: after)) : Encoded before ∧ Encoded after := by
  obtain ⟨cs, eq⟩ := h
  induction cs generalizing before with
  | nil => cases List.append_ne_nil_of_right_ne_nil before (List.cons_ne_nil b after) eq
  | cons c cs ih =>
    rw [List.flatMap_cons, List.append_eq_append_iff] at eq
    rcases eq with ⟨own, first, rest⟩ | ⟨more, rfl, rest⟩
    · cases own with
      | nil =>
        rw [List.append_nil] at first
        exact ⟨first ▸ encoded_char c, (ih (show [] ++ b :: after = _ from rest)).2⟩
      | cons b' own =>
        rw [List.cons_append, List.cons.injEq] at rest
        obtain ⟨rfl, rfl⟩ := rest
        have alone := eq_singleton_of_mem (first ▸ List.mem_append_right _ List.mem_cons_self) low
        obtain ⟨rfl, rfl⟩ : before = [] ∧ own = [] := by
          have length := congrArg List.length (first.symm.trans alone)
          rw [List.length_append, List.length_cons, List.length_singleton] at length
          exact ⟨List.eq_nil_of_length_eq_zero (by omega), List.eq_nil_of_length_eq_zero (by omega)⟩
        exact ⟨encoded_nil, cs, rfl⟩
    · obtain ⟨left, right⟩ := ih rest.symm
      exact ⟨(encoded_char c).append left, right⟩

end TypedArchive.Text.Utf8
