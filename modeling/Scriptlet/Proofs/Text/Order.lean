import Mathlib

/-!
# The order of texts

Texts are ordered character by character. UTF-8 keeps that order: of two characters, the smaller one
has the smaller encoding, and neither encoding starts with the other. So texts can be compared by
their bytes as well.

## Main definitions

* `Text.codeBytes`: the bytes of a character, by its code

## Main statements

* `Text.codeBytes_append_lt`: the first difference between two characters decides
* `Text.lt_iff_utf8_lt`: texts are in the order of their bytes
-/

namespace Scriptlet.Text

variable {cs ds : List Char}

/-- The bytes of the character with the code `v`. -/
def codeBytes (v : ℕ) : List ℕ :=
  if v ≤ 0x7f then [v]
  else if v ≤ 0x7ff then [v / 64 + 0xc0, v % 64 + 0x80]
  else if v ≤ 0xffff then [v / 4096 + 0xe0, v / 64 % 64 + 0x80, v % 64 + 0x80]
  else [v / 262144 + 0xf0, v / 4096 % 64 + 0x80, v / 64 % 64 + 0x80, v % 64 + 0x80]

theorem toNat_val_lt (c : Char) : c.val.toNat < 0x110000 := by
  rcases c.valid with h | h
  · exact Nat.lt_trans h (by decide)
  · exact h.2

theorem map_toNat_utf8EncodeChar (c : Char) :
    (String.utf8EncodeChar c).map UInt8.toNat = codeBytes c.val.toNat := by
  have hc := toNat_val_lt c
  unfold String.utf8EncodeChar codeBytes
  generalize c.val.toNat = v at hc ⊢
  dsimp only
  split_ifs <;> simp <;> omega

theorem codeBytes_ne_nil (v : ℕ) : codeBytes v ≠ [] := by
  unfold codeBytes
  split_ifs <;> simp

/-- The first difference between two characters decides, whatever follows. -/
theorem codeBytes_append_lt {v w : ℕ} (h : v < w) (hw : w < 0x110000) (x y : List ℕ) :
    codeBytes v ++ x < codeBytes w ++ y := by
  unfold codeBytes
  split_ifs <;> simp only [List.cons_append, List.nil_append, List.cons_lt_cons_iff] <;> omega

theorem map_toNat_lt_iff {bytes bytes' : List UInt8} :
    bytes.map UInt8.toNat < bytes'.map UInt8.toNat ↔ bytes < bytes' := by
  induction bytes generalizing bytes' with
  | nil => cases bytes' <;> simp
  | cons b bytes ih =>
    cases bytes' with
    | nil => simp
    | cons b' bytes' =>
      simp only [List.map_cons, List.cons_lt_cons_iff, ih, UInt8.lt_iff_toNat_lt, UInt8.toNat_inj]

/-- The bytes of a list of characters. -/
def codesBytes (cs : List Char) : List ℕ := cs.flatMap fun c => codeBytes c.val.toNat

theorem codesBytes_lt (h : cs < ds) : codesBytes cs < codesBytes ds := by
  induction cs generalizing ds with
  | nil =>
    cases ds with
    | nil => exact absurd h (lt_irrefl _)
    | cons d ds =>
      obtain ⟨b, bytes, hb⟩ := List.exists_cons_of_ne_nil (codeBytes_ne_nil d.val.toNat)
      rw [codesBytes, codesBytes, List.flatMap_cons, hb]
      exact List.nil_lt_cons _ _
  | cons c cs ih =>
    cases ds with
    | nil => exact absurd h (List.not_lt_nil _)
    | cons d ds =>
      rcases List.cons_lt_cons_iff.mp h with hlt | ⟨rfl, hlt⟩
      · exact codeBytes_append_lt hlt (toNat_val_lt d) _ _
      · exact List.Lex.append_left _ (ih hlt) _

theorem codesBytes_lt_iff : codesBytes cs < codesBytes ds ↔ cs < ds := by
  refine ⟨fun h => ?_, codesBytes_lt⟩
  rcases lt_trichotomy cs ds with hlt | rfl | hgt
  · exact hlt
  · exact absurd h (lt_irrefl _)
  · exact absurd h (codesBytes_lt hgt).asymm

/-- Texts are in the order of their bytes. -/
theorem lt_iff_utf8_lt {s t : String} :
    s < t ↔ s.toUTF8.data.toList < t.toUTF8.data.toList := by
  have hbytes (s : String) : s.toUTF8.data.toList.map UInt8.toNat = codesBytes s.toList := by
    have hs : s.toUTF8 = s.toList.utf8Encode := by
      conv_lhs => rw [← String.ofList_toList (s := s)]
      rfl
    rw [hs, List.utf8Encode]
    simp [codesBytes, List.map_flatMap, map_toNat_utf8EncodeChar]
  rw [String.lt_iff, ← codesBytes_lt_iff, ← hbytes, ← hbytes, map_toNat_lt_iff]

end Scriptlet.Text
