import Mathlib
import Scriptlet.Digest.Sha256
import Scriptlet.Text.Blank

/-!
# Texts without blanks at their ends

Cutting off the blanks at both ends changes nothing the second time, and it changes nothing on a text
of hexadecimal digits.

## Main definitions

* `Text.IsHex`: texts of hexadecimal digits

## Main statements

* `Text.trim_eq_self_iff`: the texts that cutting off blanks does not change
* `Text.trim_trim`: cutting off blanks twice
* `Sha256.isHex_hex`: a checksum is a text of hexadecimal digits
-/

namespace Scriptlet

namespace Text

variable {cs : List Char} {s t : String}

/-- All characters are hexadecimal digits. -/
def IsHex (s : String) : Prop := ∀ c ∈ s.toList, (hexValue? c).isSome

instance (s : String) : Decidable (IsHex s) :=
  decidable_of_iff (s.toList.all fun c => (hexValue? c).isSome) List.all_eq_true

theorem not_isBlank_head_trimChars {c : Char} (h : (trimChars cs).head? = some c) :
    isBlank c = false := by
  obtain ⟨rest, hrest⟩ : trimChars cs <+: cs.dropWhile isBlank :=
    List.rdropWhile_prefix _ _
  have hc : (cs.dropWhile isBlank).head? = some c := by
    rw [← hrest, List.head?_append, h]
    rfl
  simpa [hc] using List.head?_dropWhile_not isBlank cs

theorem not_isBlank_last_trimChars {c : Char} (h : (trimChars cs).getLast? = some c) :
    isBlank c = false := by
  rw [trimChars, List.getLast?_reverse, dropBlanks] at h
  simpa only [h] using List.head?_dropWhile_not isBlank (dropBlanks cs).reverse

theorem trimChars_eq_self_iff : trimChars cs = cs ↔
    (∀ c, cs.head? = some c → isBlank c = false) ∧
      ∀ c, cs.getLast? = some c → isBlank c = false := by
  constructor
  · intro h
    rw [← h]
    exact ⟨fun c => not_isBlank_head_trimChars, fun c => not_isBlank_last_trimChars⟩
  · rintro ⟨hhead, hlast⟩
    have hdrop {ds : List Char} (h : ∀ c, ds.head? = some c → isBlank c = false) :
        ds.dropWhile isBlank = ds := by
      cases ds with
      | nil => rfl
      | cons d ds => simp [h d rfl]
    have hreverse : cs.reverse.dropWhile isBlank = cs.reverse := hdrop (by simpa using hlast)
    rw [trimChars, dropBlanks, dropBlanks, hdrop hhead, hreverse, List.reverse_reverse]

theorem trim_eq_self_iff : trim s = s ↔ trimChars s.toList = s.toList := by
  rw [trim, ← String.toList_inj, String.toList_ofList]

@[simp] theorem trim_trim (s : String) : trim (trim s) = trim s := by
  rw [trim_eq_self_iff, trim, String.toList_ofList, trimChars_eq_self_iff]
  exact ⟨fun c => not_isBlank_head_trimChars, fun c => not_isBlank_last_trimChars⟩

/-- A text in front of one that ends without a blank. -/
theorem trim_append (hs : trim s = s) (ht : trim t = t) (hs' : s ≠ "") (ht' : t ≠ "") :
    trim (s ++ t) = s ++ t := by
  rw [trim_eq_self_iff, trimChars_eq_self_iff] at hs ht ⊢
  rw [ne_eq, ← String.toList_eq_nil_iff] at hs' ht'
  rw [String.toList_append, List.head?_append_of_ne_nil _ hs', List.getLast?_append_of_ne_nil _ ht']
  exact ⟨hs.1, ht.2⟩

theorem not_isBlank_of_hexValue? {c : Char} (h : (hexValue? c).isSome) : isBlank c = false := by
  have hrange : 48 ≤ c.toNat ∧ c.toNat ≤ 57 ∨ 97 ≤ c.toNat ∧ c.toNat ≤ 102 ∨
      65 ≤ c.toNat ∧ c.toNat ≤ 70 := by
    unfold hexValue? at h
    simp only [Bool.and_eq_true, decide_eq_true_eq, Char.le_def, UInt32.le_iff_toNat_le] at h
    split_ifs at h with h₁ h₂ h₃
    · exact .inl h₁
    · exact .inr (.inl h₂)
    · exact .inr (.inr h₃)
    · cases h
  simp only [isBlank, Bool.or_eq_false_iff, Bool.and_eq_false_iff, decide_eq_false_iff_not,
    beq_eq_false_iff_ne]
  omega

theorem IsHex.trim_eq (h : IsHex s) : trim s = s := by
  rw [trim_eq_self_iff, trimChars_eq_self_iff]
  exact ⟨fun c hc => not_isBlank_of_hexValue? (h c (List.mem_of_head? hc)),
    fun c hc => not_isBlank_of_hexValue? (h c (List.mem_of_getLast? hc))⟩

theorem isSome_hexValue?_hexDigit (n : Nat) : (hexValue? (hexDigit n)).isSome := by
  have hdigit : ∀ d < 16, (hexValue? (hexDigit d)).isSome := by decide
  have hmod : hexDigit n = hexDigit (n % 16) := by simp [hexDigit]
  rw [hmod]
  exact hdigit _ (Nat.mod_lt _ (by decide))

theorem isSome_of_mem_hexDigits {width n : Nat} {c : Char} (h : c ∈ hexDigits width n) :
    (hexValue? c).isSome := by
  induction width generalizing n with
  | zero => cases h
  | succ width ih =>
    rw [hexDigits, List.mem_append, List.mem_singleton] at h
    rcases h with h | rfl
    · exact ih h
    · exact isSome_hexValue?_hexDigit n

end Text

theorem Sha256.isHex_hex (bytes : ByteArray) : Text.IsHex (hex bytes) := by
  intro c hc
  rw [hex, String.toList_ofList, List.mem_flatMap] at hc
  obtain ⟨word, -, hc⟩ := hc
  exact Text.isSome_of_mem_hexDigits hc

end Scriptlet
