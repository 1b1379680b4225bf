import Mathlib
import Scriptlet.Number.Decimal

/-!
# Numerals

The text of a number that is finite and not negative is a row of digits with at most one point, and
a digit comes first.

## Main definitions

* `Decimal.IsNumeral`: digits with at most one point

## Main statements

* `Decimal.isNumeral_positional`: a decimal is written as a numeral
* `Decimal.ofDigits_whole`, `Decimal.ofDigits_point`: the decimal that a numeral stands for
-/

namespace Scriptlet

namespace Decimal

/-- Digits, the first of them in front of a point if there is one. -/
inductive IsNumeral : List Char → Prop where
  | whole {ds : List Char} (hn : ds ≠ []) (hd : ∀ c ∈ ds, c.isDigit) : IsNumeral ds
  | point {ds fs : List Char} (hn : ds ≠ []) (hd : ∀ c ∈ ds, c.isDigit)
      (hf : ∀ c ∈ fs, c.isDigit) : IsNumeral (ds ++ '.' :: fs)

theorem IsNumeral.ne_nil {cs : List Char} (h : IsNumeral cs) : cs ≠ [] := by
  cases h with
  | whole hn => exact hn
  | point => simp

theorem isDigit_of_mem_natDigits {n : Nat} {c : Char} (h : c ∈ natDigits n) : c.isDigit :=
  Nat.isDigit_of_mem_toDigits (by decide) (by decide) h

theorem isDigit_of_mem_zeros {n : Nat} {c : Char} (h : c ∈ List.replicate n '0') : c.isDigit := by
  rw [List.eq_of_mem_replicate h]
  rfl

/-- A whole number is written as its digits and zeros. -/
theorem positional_ofNat (n k : Nat) :
    (⟨n, .ofNat k⟩ : Decimal).positional ≠ [] ∧
      (∀ c ∈ (⟨n, .ofNat k⟩ : Decimal).positional, c.isDigit) ∧
      Nat.ofDigitChars 10 (⟨n, .ofNat k⟩ : Decimal).positional 0 = n * 10 ^ k := by
  simp only [positional]
  split
  · rename_i hn
    simp_all [Nat.ofDigitChars_cons]
  · refine ⟨by simp [natDigits, Nat.toDigits_ne_nil], ?_, ?_⟩
    · intro c hc
      rcases List.mem_append.mp hc with hc | hc
      · exact isDigit_of_mem_natDigits hc
      · exact isDigit_of_mem_zeros hc
    · rw [Nat.ofDigitChars_append, Nat.ofDigitChars_replicate_zero, natDigits,
        Nat.ofDigitChars_ten_toDigits, Nat.mul_comm]

/-- A fraction is written with at least one digit in front of the point. -/
theorem positional_negSucc (n k : Nat) :
    ∃ ds fs, (⟨n, .negSucc k⟩ : Decimal).positional = ds ++ '.' :: fs ∧ ds ≠ [] ∧
      fs.length = k + 1 ∧ (∀ c ∈ ds ++ fs, c.isDigit) ∧ Nat.ofDigitChars 10 (ds ++ fs) 0 = n := by
  let padded := List.replicate (k + 1 + 1 - (natDigits n).length) '0' ++ natDigits n
  have hlen : k + 1 + 1 ≤ padded.length := by
    simp only [padded, List.length_append, List.length_replicate]
    omega
  have hsplit : padded.take (padded.length - (k + 1)) ++ padded.drop (padded.length - (k + 1)) =
      padded := List.take_append_drop ..
  refine ⟨padded.take (padded.length - (k + 1)), padded.drop (padded.length - (k + 1)), rfl, ?_, ?_,
    ?_, ?_⟩
  · rw [ne_eq, List.take_eq_nil_iff, not_or]
    refine ⟨by omega, ?_⟩
    intro hnil
    simp [hnil] at hlen
  · rw [List.length_drop]
    omega
  · intro c hc
    rw [hsplit] at hc
    rcases List.mem_append.mp hc with hc | hc
    · exact isDigit_of_mem_zeros hc
    · exact isDigit_of_mem_natDigits hc
  · rw [hsplit, Nat.ofDigitChars_append, Nat.ofDigitChars_replicate_zero, Nat.mul_zero, natDigits,
      Nat.ofDigitChars_ten_toDigits]

theorem isNumeral_positional (d : Decimal) : IsNumeral d.positional := by
  obtain ⟨n, e⟩ := d
  cases e with
  | ofNat k =>
    obtain ⟨hn, hd, -⟩ := positional_ofNat n k
    exact .whole hn hd
  | negSucc k =>
    obtain ⟨ds, fs, hp, hn, -, hd, -⟩ := positional_negSucc n k
    rw [hp]
    exact .point hn (fun c hc => hd c (List.mem_append_left _ hc))
      fun c hc => hd c (List.mem_append_right _ hc)

theorem ne_point_of_isDigit {c : Char} (h : c.isDigit) : (c != '.') = true := by
  rw [bne_iff_ne]
  rintro rfl
  simp [Char.isDigit] at h

theorem foldl_eq_ofDigitChars (cs : List Char) :
    cs.foldl (fun n c => n * 10 + (c.toNat - 48)) 0 = Nat.ofDigitChars 10 cs 0 := by
  rw [Nat.ofDigitChars_eq_foldl]
  congr 1
  funext n c
  rw [Nat.mul_comm]
  rfl

theorem ofDigits_whole {ds : List Char} (hd : ∀ c ∈ ds, c.isDigit) :
    ofDigits ds = ⟨Nat.ofDigitChars 10 ds 0, 0⟩ := by
  have hp : ∀ c ∈ ds, (c != '.') = true := fun c hc => ne_point_of_isDigit (hd c hc)
  have htake : ds.takeWhile (· != '.') = ds := List.takeWhile_eq_self_iff.mpr hp
  have hdrop : ds.dropWhile (· != '.') = [] := List.dropWhile_eq_nil_iff.mpr hp
  simp [ofDigits, htake, hdrop, foldl_eq_ofDigitChars]

theorem ofDigits_point {ds fs : List Char} (hd : ∀ c ∈ ds, c.isDigit) :
    ofDigits (ds ++ '.' :: fs) = ⟨Nat.ofDigitChars 10 (ds ++ fs) 0, -(fs.length : Int)⟩ := by
  have hp : ∀ c ∈ ds, (c != '.') = true := fun c hc => ne_point_of_isDigit (hd c hc)
  have htake : (ds ++ '.' :: fs).takeWhile (· != '.') = ds := by
    rw [List.takeWhile_append_of_pos hp]
    simp
  have hdrop : (ds ++ '.' :: fs).dropWhile (· != '.') = '.' :: fs := by
    rw [List.dropWhile_append_of_pos hp]
    simp
  simp only [ofDigits, htake, hdrop, List.drop_succ_cons, List.drop_zero, foldl_eq_ofDigitChars]

end Decimal

end Scriptlet
