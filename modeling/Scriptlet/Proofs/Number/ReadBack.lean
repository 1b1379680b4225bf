import Scriptlet.Proofs.Number.Bits
import Scriptlet.Proofs.Number.Numeral
import Scriptlet.Proofs.Number.Shortest

/-!
# Reading a number back

The text of a float that is finite and not negative reads as the same float. The text stands for the
shortest decimal of the magnitude, which is near it, so the nearest float has the bits that the
magnitude was taken from.

## Main statements

* `Decimal.value_ofDigits_positional`: a decimal is written as a numeral that stands for it
* `Number.isNumeral_text`: the text of a float is a numeral
* `Number.toFloat_ofDigits_text`: the text of a float reads as the same float
-/

namespace Scriptlet

theorem Decimal.value_ofDigits_positional (d : Decimal) :
    (ofDigits d.positional).value = d.value := by
  obtain ⟨n, e⟩ := d
  cases e with
  | ofNat k =>
    obtain ⟨-, hd, hvalue⟩ := positional_ofNat n k
    rw [ofDigits_whole hd, hvalue]
    simp [value]
  | negSucc k =>
    obtain ⟨ds, fs, hp, -, hlen, hd, hvalue⟩ := positional_negSucc n k
    rw [hp, ofDigits_point fun c hc => hd c (List.mem_append_left _ hc), hvalue, hlen]
    rfl

namespace Number

variable {v : Float} {b : Binary}

theorem value_pos_of_near (hpos : 0 < b.significand) {x : ℚ} (h : b.Near x) : 0 < x := by
  have hm : (1 : ℚ) ≤ b.significand := by exact_mod_cast hpos
  have hdiv : 0 < x / 2 ^ b.exponent := by linarith [h.lowest]
  exact (div_pos_iff_of_pos_right (two_zpow_pos _)).mp hdiv

/-- A decimal with the value of the shortest one has the bits of the magnitude. -/
theorem nearestBits_of_value_eq {d : Decimal} (hb : b.IsMagnitude)
    (hd : d.value = (Decimal.shortest b).value) : nearestBits d.numerator d.denominator = b.bits := by
  have hden : 0 < d.denominator := Nat.pow_pos (by norm_num)
  rw [Decimal.value_eq_div] at hd
  rcases Nat.eq_zero_or_pos b.significand with hzero | hpos
  · have hnum : d.numerator = 0 := by
      have hq : (d.denominator : ℚ) ≠ 0 := by exact_mod_cast hden.ne'
      simpa [Decimal.shortest, hzero, Decimal.value, hq] using hd
    simp [nearestBits, hnum, Binary.bits, hzero, hiddenBit]
  · have hnear := Decimal.near_shortest hb hpos
    rw [← hd] at hnear
    have hnum : 0 < d.numerator := by
      have hx := value_pos_of_near hpos hnear
      rw [div_pos_iff_of_pos_right (by exact_mod_cast hden)] at hx
      exact_mod_cast hx
    exact nearestBits_of_near hb hnum hden hnear

theorem toList_text (hb : magnitude? v = some b) (hs : isNegative v = false) :
    (text v).toList = (Decimal.shortest b).positional := by
  simp [text, hb, hs]

theorem isNumeral_text (h : (magnitude? v).isSome) (hs : isNegative v = false) :
    Decimal.IsNumeral (text v).toList := by
  obtain ⟨b, hb⟩ := Option.isSome_iff_exists.mp h
  rw [toList_text hb hs]
  exact Decimal.isNumeral_positional _

/-- The text of a float that is finite and not negative reads as the same float. -/
theorem toFloat_ofDigits_text (h : (magnitude? v).isSome) (hs : isNegative v = false) :
    (Decimal.ofDigits (text v).toList).toFloat = v := by
  obtain ⟨b, hb⟩ := Option.isSome_iff_exists.mp h
  have hvalue := Decimal.value_ofDigits_positional (Decimal.shortest b)
  have hbits := nearestBits_of_value_eq (isMagnitude_of_magnitude? hb) hvalue
  rw [toList_text hb hs, Decimal.toFloat, hbits, bits_of_magnitude? hb hs, UInt64.ofNat_toNat]
  exact ofBits_toBits v

end Number

end Scriptlet
