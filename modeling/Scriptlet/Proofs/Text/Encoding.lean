import Mathlib
import Scriptlet.Text.Utf8

/-!
# Bytes that are read as a text

Well-formed bytes are read as the text of which they are the encoding, so nothing is lost when a file
is read as a text.

## Main statements

* `Text.utf8EncodeChar_of_sequence?`: a sequence is the encoding of the character that it is read as
* `Text.toUTF8_ofBytes`: well-formed bytes are the encoding of their text
-/

namespace Scriptlet.Text

variable {b : UInt8} {bytes rest : List UInt8} {c : Char} {n : Nat}

theorem val_ofNat (h : n.isValidChar) : (Char.ofNat n).val.toNat = n := by
  rw [Char.ofNat, dif_pos h]
  rfl

theorem ofNat_eq_of_toNat (h : n = b.toNat) : UInt8.ofNat n = b := by
  rw [h, UInt8.ofNat_toNat]

theorem le_and_le_iff {x y : UInt8} :
    (x ≤ b && b ≤ y) = true ↔ x.toNat ≤ b.toNat ∧ b.toNat ≤ y.toNat := by
  rw [Bool.and_eq_true, decide_eq_true_iff, decide_eq_true_iff, UInt8.le_iff_toNat_le,
    UInt8.le_iff_toNat_le]

theorem toNat_of_continuation? {x : Nat} (h : continuation? b = some x) :
    x < 64 ∧ b.toNat = x + 0x80 := by
  unfold continuation? at h
  split_ifs at h with hb
  · have hbounds : 0x80 ≤ b.toNat ∧ b.toNat ≤ 0xBF := le_and_le_iff.mp hb
    have hx := Option.some.inj h
    omega

/-- A sequence is the encoding of the character that it is read as. -/
theorem utf8EncodeChar_of_sequence? (h : sequence? b rest = some (c, n)) :
    String.utf8EncodeChar c = b :: rest.take n := by
  unfold sequence? at h
  split_ifs at h with h₁ h₂ h₃ h₄
  · -- one byte
    have hb : b.toNat < 0x80 := UInt8.lt_iff_toNat_lt.mp h₁
    obtain ⟨rfl, rfl⟩ := Prod.mk.inj (Option.some.inj h)
    rw [String.utf8EncodeChar, val_ofNat (.inl (by omega)), if_pos (by omega), UInt8.ofNat_toNat,
      List.take_zero]
  · -- two bytes
    have hb : 0xC2 ≤ b.toNat ∧ b.toNat ≤ 0xDF := le_and_le_iff.mp h₂
    rcases rest with _ | ⟨b₁, rest⟩
    · cases h
    obtain ⟨x, hx, h⟩ := Option.bind_eq_some_iff.mp h
    have hb₁ := toNat_of_continuation? hx
    obtain ⟨rfl, rfl⟩ := Prod.mk.inj (Option.some.inj h)
    rw [String.utf8EncodeChar, val_ofNat (.inl (by omega)), if_neg (by omega), if_pos (by omega),
      ofNat_eq_of_toNat (b := b) (by omega), ofNat_eq_of_toNat (b := b₁) (by omega)]
    rfl
  · -- three bytes
    have hb : 0xE0 ≤ b.toNat ∧ b.toNat ≤ 0xEF := le_and_le_iff.mp h₃
    rcases rest with _ | ⟨b₁, _ | ⟨b₂, rest⟩⟩
    · cases h
    · cases h
    obtain ⟨x, hx, h⟩ := Option.bind_eq_some_iff.mp h
    obtain ⟨y, hy, h⟩ := Option.bind_eq_some_iff.mp h
    have hb₁ := toNat_of_continuation? hx
    have hb₂ := toNat_of_continuation? hy
    dsimp only at h
    split_ifs at h with hn
    obtain ⟨rfl, rfl⟩ := Prod.mk.inj (Option.some.inj h)
    simp only [Bool.or_eq_true, Bool.and_eq_true, decide_eq_true_iff] at hn
    have hvalid : ((b.toNat - 0xE0) * 4096 + x * 64 + y).isValidChar := by
      unfold Nat.isValidChar
      omega
    rw [String.utf8EncodeChar, val_ofNat hvalid, if_neg (by omega), if_neg (by omega),
      if_pos (by omega), ofNat_eq_of_toNat (b := b) (by omega),
      ofNat_eq_of_toNat (b := b₁) (by omega), ofNat_eq_of_toNat (b := b₂) (by omega)]
    rfl
  · -- four bytes
    have hb : 0xF0 ≤ b.toNat ∧ b.toNat ≤ 0xF4 := le_and_le_iff.mp h₄
    rcases rest with _ | ⟨b₁, _ | ⟨b₂, _ | ⟨b₃, rest⟩⟩⟩
    · cases h
    · cases h
    · cases h
    obtain ⟨x, hx, h⟩ := Option.bind_eq_some_iff.mp h
    obtain ⟨y, hy, h⟩ := Option.bind_eq_some_iff.mp h
    obtain ⟨z, hz, h⟩ := Option.bind_eq_some_iff.mp h
    have hb₁ := toNat_of_continuation? hx
    have hb₂ := toNat_of_continuation? hy
    have hb₃ := toNat_of_continuation? hz
    dsimp only at h
    split_ifs at h with hn
    obtain ⟨rfl, rfl⟩ := Prod.mk.inj (Option.some.inj h)
    simp only [Bool.or_eq_true, decide_eq_true_iff] at hn
    have hvalid : ((b.toNat - 0xF0) * 262144 + x * 4096 + y * 64 + z).isValidChar := by
      unfold Nat.isValidChar
      omega
    rw [String.utf8EncodeChar, val_ofNat hvalid, if_neg (by omega), if_neg (by omega),
      if_neg (by omega), ofNat_eq_of_toNat (b := b) (by omega),
      ofNat_eq_of_toNat (b := b₁) (by omega), ofNat_eq_of_toNat (b := b₂) (by omega),
      ofNat_eq_of_toNat (b := b₃) (by omega)]
    rfl

/-- A character has four bytes at most. -/
theorem utf8ByteSize_le (s : String) : s.utf8ByteSize ≤ 4 * s.length := by
  have hall (cs : List Char) : String.utf8Len cs ≤ 4 * cs.length := by
    induction cs with
    | nil => simp
    | cons c cs ih =>
      have hc := c.utf8Size_le_four
      rw [String.utf8Len_cons, List.length_cons]
      omega
  have hs := hall s.toList
  rwa [← String.utf8ByteSize_ofList, String.ofList_toList, String.length_toList] at hs

theorem flatMap_decode (h : isUtf8 bytes) : (decode bytes).flatMap String.utf8EncodeChar = bytes := by
  fun_induction decode bytes with
  | case1 => rfl
  | case2 b rest c n hsequence ih =>
    rw [isUtf8, hsequence] at h
    rw [List.flatMap_cons, ih h, utf8EncodeChar_of_sequence? hsequence, List.cons_append,
      List.take_append_drop]
  | case3 b rest hsequence ih =>
    rw [isUtf8, hsequence] at h
    cases h

/-- Well-formed bytes are the encoding of their text. -/
theorem toUTF8_ofBytes {bytes : ByteArray} (h : isUtf8 bytes.data.toList) :
    (ofBytes bytes).toUTF8 = bytes := by
  change (decode bytes.data.toList).utf8Encode = bytes
  rw [List.utf8Encode, flatMap_decode h]
  exact ByteArray.ext (by simp)

end Scriptlet.Text
