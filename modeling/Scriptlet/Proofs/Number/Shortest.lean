import Scriptlet.Proofs.Number.Rounding

/-!
# The shortest decimal is near

A decimal on the grid of seventeen digits is always near a magnitude, since one step of this grid is
less than one place, and below a power of two less than three quarters of one. So the search for the
shortest decimal finds one that is near.

## Main definitions

* `Binary.value`, `Decimal.value`: the numbers that binary numbers and decimals stand for

## Main statements

* `Binary.isSome_onGrid?`: a grid with steps that are fine enough has a decimal near a magnitude
* `Decimal.near_shortest`: the shortest decimal of a magnitude is near it
-/

namespace Scriptlet

/-- The number that a binary number stands for. -/
def Binary.value (b : Binary) : ℚ := b.significand * 2 ^ b.exponent

/-- The number that a decimal stands for. -/
def Decimal.value (d : Decimal) : ℚ := d.digits * 10 ^ d.exponent

theorem ten_ne_zero : (10 : ℚ) ≠ 0 := by norm_num

theorem Binary.value_eq_div (b : Binary) : b.value = b.numerator / b.denominator := by
  simp only [value, numerator, denominator, Nat.shiftLeft_eq, one_mul, Nat.cast_mul, Nat.cast_pow,
    Nat.cast_ofNat]
  rw [zpow_eq_div two_ne_zero, mul_div_assoc]

theorem Decimal.value_eq_div (d : Decimal) : d.value = d.numerator / d.denominator := by
  simp only [value, numerator, denominator, Nat.pow_eq, Nat.cast_mul, Nat.cast_pow, Nat.cast_ofNat]
  rw [zpow_eq_div ten_ne_zero, mul_div_assoc]

namespace Binary

section Grid

variable {v : Neighbourhood} {b : Binary} {place : ℤ} {d : ℕ}

theorem Neighbourhood.quarter_pos (v : Neighbourhood) (place : ℤ) : 0 < v.quarter place := by
  simp [quarter, Nat.shiftLeft_eq]

theorem Neighbourhood.unit_pos (v : Neighbourhood) (place : ℤ) : 0 < v.unit place := by
  simp [unit, Nat.shiftLeft_eq]

theorem Neighbourhood.unit_div_quarter :
    (v.unit place / v.quarter place : ℚ) = 10 ^ place / 2 ^ v.exponent := by
  rw [zpow_eq_div ten_ne_zero, zpow_eq_div two_ne_zero]
  simp only [unit, quarter, Nat.pow_eq, Nat.shiftLeft_eq, Nat.cast_mul, Nat.cast_pow, Nat.cast_ofNat]
  field_simp

theorem Neighbourhood.contains_of_has (h : v.has place d) :
    v.Contains (d * 10 ^ place / 2 ^ v.exponent) := by
  have hq : (0 : ℚ) < v.quarter place := by exact_mod_cast v.quarter_pos place
  rw [mul_div_assoc, ← unit_div_quarter, ← mul_div_assoc, ← Nat.cast_mul]
  simp only [has] at h
  constructor
  · have hl : v.lowest * v.quarter place ≤ d * v.unit place := by
      split at h <;> simp only [Bool.and_eq_true, decide_eq_true_eq] at h <;> omega
    rw [le_div_iff₀ hq]
    exact_mod_cast hl
  · have hh : d * v.unit place ≤ v.highest * v.quarter place := by
      split at h <;> simp only [Bool.and_eq_true, decide_eq_true_eq] at h <;> omega
    rw [div_le_iff₀ hq]
    exact_mod_cast hh
  · intro hc
    simp only [hc, Bool.false_eq_true, if_false, Bool.and_eq_true, decide_eq_true_eq] at h
    rw [lt_div_iff₀ hq, div_lt_iff₀ hq]
    exact_mod_cast h

theorem near_of_onGrid? {dec : Decimal} (h : b.onGrid? place = some dec) : b.Near dec.value := by
  have hgrid : dec.exponent = place ∧ b.neighbourhood.has place dec.digits := by
    simp only [onGrid?] at h
    split at h
    · cases h
    · cases h
      exact ⟨rfl, ‹_›⟩
    · cases h
      exact ⟨rfl, ‹_›⟩
    · split at h <;> cases h <;> exact ⟨rfl, ‹_›⟩
  obtain ⟨rfl, hd⟩ := hgrid
  exact near_of_contains (Neighbourhood.contains_of_has hd)

theorem Neighbourhood.has_of_lt (hl : v.lowest * v.quarter place < d * v.unit place)
    (hh : d * v.unit place < v.highest * v.quarter place) : v.has place d := by
  simp only [has]
  split <;> simp [hl, hh, hl.le, hh.le]

/-- Sixteen digits after the first one: a step is less than one place. -/
theorem unit_le_of_value (hfine : (10 : ℚ) ^ (place + 16) ≤ b.value) :
    10 ^ 16 * b.neighbourhood.unit place ≤ 4 * (b.significand * b.neighbourhood.quarter place) := by
  have hq : (0 : ℚ) < b.neighbourhood.quarter place := by
    exact_mod_cast b.neighbourhood.quarter_pos place
  have hexp : b.neighbourhood.exponent = b.exponent - 2 := rfl
  have hratio : (b.neighbourhood.unit place / b.neighbourhood.quarter place : ℚ) =
      4 * (10 ^ place / 2 ^ b.exponent) := by
    rw [Neighbourhood.unit_div_quarter, hexp, zpow_sub₀ two_ne_zero]
    field_simp
    norm_num
  rw [value, zpow_add₀ ten_ne_zero, ← div_le_iff₀ (two_zpow_pos _)] at hfine
  have hle : (10 ^ 16 * (b.neighbourhood.unit place / b.neighbourhood.quarter place) : ℚ) ≤
      4 * b.significand := by
    rw [mul_div_right_comm] at hfine
    rw [hratio]
    norm_num at hfine ⊢
    linarith
  rw [← mul_div_assoc, div_le_iff₀ hq, mul_assoc] at hle
  exact_mod_cast hle

/-- With steps that are shorter than an interval, a multiple next to a point in it is in it. -/
theorem multiple_between {low centre high step : ℕ} (hstep : 0 < step) (hl : low < centre)
    (hh : centre < high) (hlt : low + step < high) :
    low < centre / step * step ∧ centre / step * step < high ∨
      low < (centre / step + 1) * step ∧ (centre / step + 1) * step < high := by
  have hle := Nat.div_mul_le_self centre step
  have hgt := Nat.lt_div_mul_add (a := centre) hstep
  rw [Nat.add_mul, Nat.one_mul]
  omega

/-- A neighbourhood reaches over four quarters, and over three at a power of two. -/
theorem width_neighbourhood (hpos : 0 < b.significand) :
    b.significand = Number.hiddenBit ∧ b.neighbourhood.lowest + 3 = b.neighbourhood.highest ∨
      b.neighbourhood.lowest + 4 = b.neighbourhood.highest := by
  simp only [neighbourhood]
  split
  · rename_i hc
    simp only [Bool.and_eq_true, beq_iff_eq] at hc
    omega
  · omega

/-- A step with sixteen more digits is shorter than a neighbourhood. -/
theorem unit_lt_width (hb : b.IsMagnitude) (hpos : 0 < b.significand)
    (hstep : 10 ^ 16 * b.neighbourhood.unit place ≤
      4 * (b.significand * b.neighbourhood.quarter place)) :
    b.neighbourhood.lowest * b.neighbourhood.quarter place + b.neighbourhood.unit place <
      b.neighbourhood.highest * b.neighbourhood.quarter place := by
  have hQ := b.neighbourhood.quarter_pos place
  have hbit : Number.hiddenBit = 4503599627370496 := rfl
  obtain ⟨hm, hw⟩ | hw := width_neighbourhood hpos
  · rw [hm, hbit] at hstep
    rw [← hw, Nat.add_mul]
    omega
  · have hm := Nat.mul_le_mul_right (b.neighbourhood.quarter place)
      (Nat.le_sub_one_of_lt hb.significand)
    rw [hbit] at hm
    rw [← hw, Nat.add_mul]
    omega

/-- One of the two decimals around a magnitude is near it if a step is less than one place. -/
theorem has_below_or_above (hb : b.IsMagnitude) (hpos : 0 < b.significand)
    (hstep : 10 ^ 16 * b.neighbourhood.unit place ≤
      4 * (b.significand * b.neighbourhood.quarter place)) :
    let below := b.neighbourhood.centre * b.neighbourhood.quarter place / b.neighbourhood.unit place
    b.neighbourhood.has place below ∨ b.neighbourhood.has place (below + 1) := by
  have hQ := b.neighbourhood.quarter_pos place
  have hl : b.neighbourhood.lowest < b.neighbourhood.centre := by
    simp only [neighbourhood]
    split <;> omega
  have hh : b.neighbourhood.centre < b.neighbourhood.highest := by
    simp only [neighbourhood]
    omega
  obtain ⟨h₁, h₂⟩ | ⟨h₁, h₂⟩ := multiple_between (b.neighbourhood.unit_pos place)
    (Nat.mul_lt_mul_of_pos_right hl hQ) (Nat.mul_lt_mul_of_pos_right hh hQ)
    (unit_lt_width hb hpos hstep)
  · exact .inl (Neighbourhood.has_of_lt h₁ h₂)
  · exact .inr (Neighbourhood.has_of_lt h₁ h₂)

/-- A grid whose steps are below `10 ^ 16` of a magnitude has a decimal near it. -/
theorem isSome_onGrid? (hb : b.IsMagnitude) (hpos : 0 < b.significand)
    (hfine : (10 : ℚ) ^ (place + 16) ≤ b.value) : (b.onGrid? place).isSome := by
  have hhas := has_below_or_above hb hpos (unit_le_of_value hfine)
  simp only [onGrid?]
  split
  · simp_all
  · rfl
  · rfl
  · split <;> rfl

end Grid

section Search

variable {b : Binary}

theorem le_leadingPlace {n d bound : ℕ} (h : d ≤ n * 10 ^ bound) :
    d ≤ n * 10 ^ leadingPlace n d bound := by
  induction bound generalizing n with
  | zero => exact h
  | succ bound ih =>
    unfold leadingPlace
    split
    · simpa
    · rw [pow_succ', ← mul_assoc]
      exact ih (by rwa [pow_succ', ← mul_assoc] at h)

theorem denominator_pos (b : Binary) : 0 < b.denominator := by
  simp [denominator, Nat.shiftLeft_eq]

theorem two_pow_le_ten_pow {k bound : ℕ} (h : k ≤ 3 * bound) : 2 ^ k ≤ 10 ^ bound := by
  calc 2 ^ k ≤ 2 ^ (3 * bound) := Nat.pow_le_pow_right two_pos h
    _ = (2 ^ 3) ^ bound := pow_mul 2 3 bound
    _ ≤ 10 ^ bound := Nat.pow_le_pow_left (by norm_num) bound

theorem denominator_le (hb : b.IsMagnitude) : b.denominator ≤ 10 ^ 400 := by
  have hleast := hb.least
  rw [denominator, Nat.shiftLeft_eq, one_mul]
  exact two_pow_le_ten_pow (by omega)

theorem pow_length_toDigits_le {n : ℕ} (hn : 0 < n) : 10 ^ ((Nat.toDigits 10 n).length - 1) ≤ n := by
  by_cases hlen : (Nat.toDigits 10 n).length - 1 = 0
  · rw [hlen]
    exact hn
  · have hiff := Nat.length_toDigits_le_iff (n := n) (by norm_num : 1 < 10) (Nat.pos_of_ne_zero hlen)
    by_contra hlt
    have hle := hiff.mpr (not_le.mp hlt)
    omega

/-- The first digit of a magnitude is not at a later place than `decimalPlace`. -/
theorem zpow_decimalPlace_le (hb : b.IsMagnitude) (hpos : 0 < b.significand) :
    (10 : ℚ) ^ b.decimalPlace ≤ b.value := by
  have hd : (0 : ℚ) < b.denominator := by exact_mod_cast b.denominator_pos
  rw [value_eq_div, le_div_iff₀ hd]
  unfold decimalPlace
  split
  · rename_i hle
    have hlow := pow_length_toDigits_le (Nat.div_pos hle b.denominator_pos)
    rw [Nat.le_div_iff_mul_le b.denominator_pos] at hlow
    have hlen := Nat.length_toDigits_pos (b := 10) (n := b.numerator / b.denominator)
    rw [← Nat.cast_pred hlen, zpow_natCast]
    exact_mod_cast hlow
  · have hn : 0 < b.numerator := by simp [numerator, Nat.shiftLeft_eq, hpos]
    have hbound : b.denominator ≤ b.numerator * 10 ^ 400 :=
      (denominator_le hb).trans (Nat.le_mul_of_pos_left _ hn)
    have hlead := le_leadingPlace hbound
    rw [zpow_neg, zpow_natCast, inv_mul_le_iff₀ (by positivity), mul_comm]
    exact_mod_cast hlead

theorem near_shortestFrom {first : ℤ} (h : (b.onGrid? (first - 16)).isSome) {more : ℕ}
    (hm : more < 17) : b.Near (b.shortestFrom first (more + 1)).value := by
  induction more with
  | zero =>
    obtain ⟨d, hd⟩ := Option.isSome_iff_exists.mp h
    simp only [shortestFrom]
    norm_num [hd]
    exact near_of_onGrid? hd
  | succ more ih =>
    rw [shortestFrom]
    cases hd : b.onGrid? (first - (17 - (more + 1 + 1) : ℕ)) with
    | none => exact ih (by omega)
    | some d => exact near_of_onGrid? hd

end Search

end Binary

namespace Decimal

theorem value_stripZeros (d : Decimal) (bound : ℕ) : (d.stripZeros bound).value = d.value := by
  induction bound generalizing d with
  | zero => rfl
  | succ bound ih =>
    unfold stripZeros
    split
    · rename_i hc
      simp only [Bool.and_eq_true, beq_iff_eq] at hc
      have hdigits : (d.digits : ℚ) = (d.digits / 10 : ℕ) * 10 := by
        exact_mod_cast (Nat.div_mul_cancel (Nat.dvd_of_mod_eq_zero hc.1)).symm
      rw [ih, value, value, zpow_add_one₀ ten_ne_zero, hdigits]
      ring
    · rfl

/-- The shortest decimal of a magnitude is near it. -/
theorem near_shortest {b : Binary} (hb : b.IsMagnitude) (hpos : 0 < b.significand) :
    b.Near (shortest b).value := by
  rw [shortest, if_neg (by simpa using hpos.ne'), value_stripZeros]
  have hfine : (10 : ℚ) ^ (b.decimalPlace - 16 + 16) ≤ b.value := by
    rw [sub_add_cancel]
    exact Binary.zpow_decimalPlace_le hb hpos
  exact Binary.near_shortestFrom (Binary.isSome_onGrid? hb hpos hfine) (by norm_num)

end Decimal

end Scriptlet
