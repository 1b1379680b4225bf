import Mathlib
import Scriptlet.Number.Decimal

/-!
# Rounding to the nearest float

A fraction is cut off at the last place that a float of its size has, and the rest is rounded, a tie
to the even significand. What lies in the neighbourhood of a magnitude is rounded to it: at most half
of the last place above it and below it, and at most a quarter below a power of two, where the floats
below are closer. There the fraction is cut off one place later, and rounding up carries.

## Main definitions

* `Number.RoundsTo`: a number is nearest to a natural number
* `Binary.Near`: a number is nearest to a binary number
* `Binary.IsMagnitude`, `Binary.bits`: the magnitudes of floats, and their bits

## Main statements

* `Number.le_binaryPlace_iff`: the place of the first bit of a fraction
* `Binary.near_of_contains`: the neighbourhood of a binary number is near
* `Number.nearestBits_of_near`: what is near a magnitude has its bits
-/

namespace Scriptlet

theorem zpow_eq_div {base : ℚ} (hb : base ≠ 0) (e : ℤ) :
    base ^ e = base ^ e.toNat / base ^ (-e).toNat := by
  rw [eq_div_iff (pow_ne_zero _ hb), ← zpow_natCast, ← zpow_natCast, ← zpow_add₀ hb]
  congr 1
  omega

theorem two_zpow_pos (k : ℤ) : (0 : ℚ) < 2 ^ k := zpow_pos two_pos k

namespace Number

variable {n d q : ℕ}

/-- A number is at most half away from `q`, and less if `q` is odd. -/
structure RoundsTo (x : ℚ) (q : ℕ) : Prop where
  lowest : q - 1 / 2 ≤ x
  highest : x ≤ q + 1 / 2
  inner : q % 2 = 1 → q - 1 / 2 < x ∧ x < q + 1 / 2

/-- The bounds of `RoundsTo` for a fraction, in whole numbers. -/
theorem RoundsTo.bounds (hd : 0 < d) (h : RoundsTo (n / d) q) :
    2 * (q * d) ≤ 2 * n + d ∧ 2 * n ≤ 2 * (q * d) + d ∧
      (q % 2 = 1 → 2 * (q * d) < 2 * n + d ∧ 2 * n < 2 * (q * d) + d) := by
  have hdq : (0 : ℚ) < d := by exact_mod_cast hd
  refine ⟨?_, ?_, ?_⟩
  · have hlow := h.lowest
    rw [le_div_iff₀ hdq] at hlow
    exact_mod_cast (by linarith : (2 * (q * d) : ℚ) ≤ 2 * n + d)
  · have hhigh := h.highest
    rw [div_le_iff₀ hdq] at hhigh
    exact_mod_cast (by linarith : (2 * n : ℚ) ≤ 2 * (q * d) + d)
  · intro hodd
    obtain ⟨hlow, hhigh⟩ := h.inner hodd
    rw [lt_div_iff₀ hdq] at hlow
    rw [div_lt_iff₀ hdq] at hhigh
    exact ⟨by exact_mod_cast (by linarith : (2 * (q * d) : ℚ) < 2 * n + d),
      by exact_mod_cast (by linarith : (2 * n : ℚ) < 2 * (q * d) + d)⟩

theorem divRound_eq (hd : 0 < d) (h : RoundsTo (n / d) q) : divRound n d = q := by
  obtain ⟨hlow, hhigh, hinner⟩ := h.bounds hd
  have hn := Nat.div_add_mod n d
  have hr := Nat.mod_lt n hd
  have hle : n / d ≤ q := by
    by_contra hlt
    have hmul := Nat.mul_le_mul_left d (Nat.succ_le_of_lt (not_le.mp hlt))
    rw [Nat.mul_succ, Nat.mul_comm d q] at hmul
    omega
  have hge : q ≤ n / d + 1 := by
    by_contra hlt
    have hmul := Nat.mul_le_mul_left d (Nat.succ_le_of_lt (not_le.mp hlt))
    rw [Nat.mul_succ, Nat.mul_succ, Nat.mul_comm d q] at hmul
    omega
  obtain h | h : q = n / d ∨ q = n / d + 1 := by omega
  · have hmul : q * d = d * (n / d) := by rw [h, Nat.mul_comm]
    simp only [divRound, ← h]
    split
    · rename_i hup
      simp only [gt_iff_lt, Bool.or_eq_true, decide_eq_true_eq, Bool.and_eq_true, beq_iff_eq] at hup
      omega
    · rfl
  · have hmul : q * d = d * (n / d) + d := by rw [h, Nat.add_mul, Nat.one_mul, Nat.mul_comm]
    simp only [divRound]
    split
    · exact h.symm
    · rename_i hdown
      simp only [gt_iff_lt, Bool.or_eq_true, decide_eq_true_eq, Bool.and_eq_true, beq_iff_eq] at hdown
      omega

theorem binaryPlace_spec (hn : 0 < n) (hd : 0 < d) :
    (2 : ℚ) ^ binaryPlace n d ≤ n / d ∧ (n / d : ℚ) < 2 ^ (binaryPlace n d + 1) := by
  have hdq : (0 : ℚ) < d := by exact_mod_cast hd
  unfold binaryPlace
  split
  · rename_i hle
    have hq : n / d ≠ 0 := (Nat.div_pos hle hd).ne'
    have hlow := Nat.log2_self_le hq
    have hhigh := Nat.lt_log2_self (n := n / d)
    rw [Nat.le_div_iff_mul_le hd] at hlow
    rw [Nat.div_lt_iff_lt_mul hd] at hhigh
    rw [le_div_iff₀ hdq, div_lt_iff₀ hdq]
    exact ⟨by exact_mod_cast hlow, by exact_mod_cast hhigh⟩
  · rename_i hlt
    have hq : (d - 1) / n ≠ 0 := (Nat.div_pos (by omega) hn).ne'
    have hlow := Nat.log2_self_le hq
    have hhigh := Nat.lt_log2_self (n := (d - 1) / n)
    rw [Nat.le_div_iff_mul_le hn] at hlow
    rw [Nat.div_lt_iff_lt_mul hn] at hhigh
    generalize ((d - 1) / n).log2 = k at *
    have hbelow : 2 ^ k * n < d := by omega
    have habove : d ≤ 2 ^ (k + 1) * n := by omega
    have hneg : -(k : ℤ) - 1 = -((k + 1 : ℕ) : ℤ) := by
      push_cast
      ring
    rw [le_div_iff₀ hdq, div_lt_iff₀ hdq, sub_add_cancel, hneg, zpow_neg, zpow_neg, zpow_natCast,
      zpow_natCast, inv_mul_le_iff₀ (by positivity), lt_inv_mul_iff₀ (by positivity)]
    exact ⟨by exact_mod_cast habove, by exact_mod_cast hbelow⟩

theorem le_binaryPlace_iff (hn : 0 < n) (hd : 0 < d) {k : ℤ} :
    k ≤ binaryPlace n d ↔ (2 : ℚ) ^ k ≤ n / d := by
  obtain ⟨hlow, hhigh⟩ := binaryPlace_spec hn hd
  constructor
  · intro h
    exact (zpow_le_zpow_right₀ one_le_two h).trans hlow
  · intro h
    have hlt := (zpow_lt_zpow_iff_right₀ one_lt_two).mp (h.trans_lt hhigh)
    omega

end Number

namespace Binary

/-- The binary numbers that are magnitudes of floats. -/
structure IsMagnitude (b : Binary) : Prop where
  significand : b.significand < 2 * Number.hiddenBit
  least : -1074 ≤ b.exponent
  greatest : b.exponent ≤ 971
  full : b.exponent ≠ -1074 → Number.hiddenBit ≤ b.significand

/-- The bits of the float that has a magnitude and no sign. -/
def bits (b : Binary) : ℕ :=
  if b.significand < Number.hiddenBit then b.significand
  else (b.exponent + 1074).toNat * Number.hiddenBit + b.significand

theorem IsMagnitude.bits_lt {b : Binary} (hb : b.IsMagnitude) :
    b.bits < 2047 * Number.hiddenBit := by
  obtain ⟨hm, hleast, hgreatest, -⟩ := hb
  have hbit : Number.hiddenBit = 4503599627370496 := rfl
  rw [bits, hbit]
  split_ifs <;> omega

/-- A number is nearest to `b`; below a power of two it is at most a quarter of a place away. -/
structure Near (b : Binary) (x : ℚ) : Prop extends
    Number.RoundsTo (x / 2 ^ b.exponent) b.significand where
  carry : b.significand = Number.hiddenBit → -1074 < b.exponent →
    b.significand - 1 / 4 ≤ x / 2 ^ b.exponent

/-- Some quarters of a place are in a neighbourhood, which has its ends only if it is closed. -/
structure Neighbourhood.Contains (v : Neighbourhood) (quarters : ℚ) : Prop where
  lowest : v.lowest ≤ quarters
  highest : quarters ≤ v.highest
  inner : v.closed = false → v.lowest < quarters ∧ quarters < v.highest

variable {b : Binary} {x : ℚ}

theorem near_of_contains (h : b.neighbourhood.Contains (x / 2 ^ (b.exponent - 2))) : b.Near x := by
  obtain ⟨hl, hh, hi⟩ := h
  have hlow : 4 * b.significand ≤ b.neighbourhood.lowest + 2 := by
    simp only [neighbourhood]
    split <;> omega
  have hcarry : b.significand = Number.hiddenBit → -1074 < b.exponent →
      4 * b.significand ≤ b.neighbourhood.lowest + 1 := by
    intro hm he
    simp only [neighbourhood, hm, he, beq_self_eq_true, decide_true, Bool.and_self, if_true]
    omega
  have hhigh : (b.neighbourhood.highest : ℚ) = 4 * b.significand + 2 := by
    simp [neighbourhood]
  have hscale : x / 2 ^ (b.exponent - 2) = 4 * (x / 2 ^ b.exponent) := by
    rw [zpow_sub₀ two_ne_zero]
    field_simp
    norm_num
  rw [hscale] at hl hh hi
  qify at hlow
  refine ⟨⟨?_, ?_, ?_⟩, ?_⟩
  · linarith
  · linarith
  · intro ho
    obtain ⟨h₁, h₂⟩ := hi (by simp [neighbourhood, ho])
    constructor <;> linarith
  · intro hm he
    have hc := hcarry hm he
    qify at hc
    linarith

/-- Of the magnitudes above the least exponent, only a power of two has numbers near it below. -/
theorem Near.eq_hiddenBit (hb : b.IsMagnitude) (h : b.Near x) (he : b.exponent ≠ -1074)
    (hlt : x / 2 ^ b.exponent < Number.hiddenBit) : b.significand = Number.hiddenBit := by
  have hge := hb.full he
  by_contra hne
  have hgt : Number.hiddenBit + 1 ≤ b.significand := by omega
  qify at hgt
  linarith [h.lowest]

/-- Below a power of two, the last place is half of that above, and rounding up carries. -/
theorem Near.roundsTo_half (h : b.Near x) (he : -1074 < b.exponent)
    (hp : b.significand = Number.hiddenBit) (hlt : x / 2 ^ b.exponent < Number.hiddenBit) :
    Number.RoundsTo (x / 2 ^ (b.exponent - 1)) (2 * Number.hiddenBit) := by
  have hcarry := h.carry hp he
  rw [hp] at hcarry
  have hdouble : x / 2 ^ (b.exponent - 1) = 2 * (x / 2 ^ b.exponent) := by
    rw [zpow_sub₀ two_ne_zero]
    field_simp
  rw [hdouble]
  refine ⟨?_, ?_, ?_⟩
  · push_cast
    linarith
  · push_cast
    linarith
  · intro hodd
    omega

end Binary

namespace Number

variable {n d : ℕ} {b : Binary}

theorem nearestBits_of_roundsTo {kept : ℕ} {last : ℤ} (hn : 0 < n) (hd : 0 < d)
    (hlast : max (binaryPlace n d - 52) (-1074) = last) (h : RoundsTo (n / d / 2 ^ last) kept) :
    nearestBits n d =
      min (if kept < hiddenBit then kept else (last + 1074).toNat * hiddenBit + kept)
        (2047 * hiddenBit) := by
  have hscale : (n / d / 2 ^ last : ℚ) =
      (n <<< (-last).toNat : ℕ) / (d <<< last.toNat : ℕ) := by
    rw [zpow_eq_div two_ne_zero, Nat.shiftLeft_eq, Nat.shiftLeft_eq]
    push_cast
    field_simp
  have hkept : divRound (n <<< (-last).toNat) (d <<< last.toNat) = kept :=
    divRound_eq (by simp [Nat.shiftLeft_eq, hd]) (hscale ▸ h)
  simp only [nearestBits, hlast, hkept, beq_iff_eq, hn.ne', if_false]

theorem nearestBits_of_near (hb : b.IsMagnitude) (hn : 0 < n) (hd : 0 < d) (h : b.Near (n / d)) :
    nearestBits n d = b.bits := by
  have hplace {k : ℤ} : k + b.exponent ≤ binaryPlace n d ↔ (2 : ℚ) ^ k ≤ n / d / 2 ^ b.exponent := by
    rw [le_binaryPlace_iff hn hd, le_div_iff₀ (two_zpow_pos _), ← zpow_add₀ two_ne_zero]
  have hbit : (2 : ℚ) ^ (52 : ℤ) = hiddenBit := by norm_num [hiddenBit]
  have hleast := hb.least
  have hbelow : ¬ 53 + b.exponent ≤ binaryPlace n d := by
    have hm : b.significand + 1 ≤ 2 * hiddenBit := hb.significand
    have hbit₂ : (2 : ℚ) ^ (53 : ℤ) = 2 * hiddenBit := by norm_num [hiddenBit]
    qify at hm
    rw [hplace, not_le, hbit₂]
    linarith [h.highest]
  by_cases hle : 52 + b.exponent ≤ binaryPlace n d ∨ b.exponent = -1074
  · have hlast : max (binaryPlace n d - 52) (-1074) = b.exponent := by omega
    rw [nearestBits_of_roundsTo hn hd hlast h.toRoundsTo]
    exact min_eq_left hb.bits_lt.le
  · obtain ⟨hlt, he⟩ := not_or.mp hle
    rw [hplace, not_le, hbit] at hlt
    have hp := h.eq_hiddenBit hb he hlt
    have hlow : 51 + b.exponent ≤ binaryPlace n d := by
      have hcarry := h.carry hp (by omega)
      have hbit₁ : (2 : ℚ) ^ (51 : ℤ) ≤ hiddenBit - 1 / 4 := by norm_num [hiddenBit]
      rw [hplace]
      rw [hp] at hcarry
      exact hbit₁.trans hcarry
    have hlast : max (binaryPlace n d - 52) (-1074) = b.exponent - 1 := by omega
    rw [nearestBits_of_roundsTo hn hd hlast (h.roundsTo_half (by omega) hp hlt)]
    have hsum : (b.exponent - 1 + 1074).toNat * hiddenBit + 2 * hiddenBit = b.bits := by
      have hsucc : (b.exponent + 1074).toNat = (b.exponent - 1 + 1074).toNat + 1 := by omega
      rw [Binary.bits, hp, if_neg (lt_irrefl _), hsucc]
      ring
    rw [if_neg (by omega), hsum]
    exact min_eq_left hb.bits_lt.le

end Number

end Scriptlet
