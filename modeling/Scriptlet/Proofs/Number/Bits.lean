import Scriptlet.Proofs.Number.Rounding

/-!
# The bits of a float

A float is made of its bits, and its bits are those of its magnitude if it is finite and not negative.
Floats that compare as equal are equal bit by bit, except for the two zeros, which differ in their
signs; so floats without a sign are compared by their bits.

## Main statements

* `Number.ofBits_toBits`: a float is the float of its bits
* `Number.isNegative_toFloat`: the float nearest to a decimal has no sign
* `Number.eq_of_beq_unsigned`: floats without a sign that compare as equal are equal
* `Number.isMagnitude_of_magnitude?`, `Number.bits_of_magnitude?`: a magnitude and its bits
* `Number.isInf_eq_false`, `Number.beq_self`: what has a magnitude is not infinite, and equal to itself
-/

namespace Scriptlet.Number

section Packing

open Float.Model UnpackedFloat

variable {bits : BitVec Format.binary64.numBits} {s : Sign} {e : BitVec 11} {m : BitVec 52}

/-- Bits are put together from their sign, exponent and mantissa. -/
theorem packComponents_fields (bits : BitVec Format.binary64.numBits) :
    packComponents .binary64 (.ofBitVec (unpackSign bits)) (unpackExponent bits) (unpackMantissa bits) =
      bits := by
  have hsign (b : BitVec 1) : (Sign.ofBitVec b).toBitVec = b := by
    revert b
    decide
  rw [packComponents, hsign]
  ext i hi
  simp only [unpackSign, unpackExponent, unpackMantissa]
  grind

theorem pack_subnormal (hm : 0 < m.toNat) :
    UnpackedFloat.pack .binary64 (.finite s m.toNat (-1074) hm) =
      packComponents .binary64 s 0#11 m := by
  have hlog : m.toNat.log2 + 1 ≠ 53 := by
    have hlt := (Nat.log2_lt hm.ne').mpr m.isLt
    omega
  simp [UnpackedFloat.pack, Format.exponentBias, Format.mantissaBits, Nat.add_comm 1, hlog]

theorem pack_normal (hmax : e ≠ -1#11) (hm : 0 < (1#1 ++ m).toNat) :
    UnpackedFloat.pack .binary64 (.finite s (1#1 ++ m).toNat (e.toNat - 1075) hm) =
      packComponents .binary64 s e m := by
  have happ : (1#1 ++ m).toNat = 2 ^ 52 + m.toNat := by
    rw [BitVec.toNat_append, ← Nat.shiftLeft_add_eq_or_of_lt m.isLt]
    rfl
  have hlt := m.isLt
  have hlog : (4503599627370496 + m.toNat).log2 = 52 := by
    rw [Nat.log2_eq_iff (by omega)]
    omega
  have he : e.toNat + 1 < 2 ^ 11 := by
    have hne : e.toNat ≠ (-1#11).toNat := fun h => hmax (BitVec.eq_of_toNat_eq h)
    have hones : (-1#11).toNat = 2047 := by decide
    omega
  have hbias : ((e.toNat : ℤ) - 1075 + 1023 + 52).toNat = e.toNat := by omega
  have hmant : BitVec.ofNat 52 (4503599627370496 + m.toNat) = m := by
    apply BitVec.eq_of_toNat_eq
    rw [BitVec.toNat_ofNat]
    omega
  simp [UnpackedFloat.pack, Format.exponentBias, Format.mantissaBits, happ, hbias, hlog, hmant]
  omega

theorem pack_unpack (h : Format.binary64.Valid bits) :
    UnpackedFloat.pack .binary64 (unpack .binary64 bits) = bits := by
  have hfields := packComponents_fields bits
  unfold UnpackedFloat.unpack
  dsimp only
  split
  · rename_i hmax
    split
    · rename_i hm
      rw [hmax, hm] at hfields
      exact hfields
    · exact (h.eq_packedNaN ‹_› ‹_›).symm
  · rename_i hmax
    split
    · rename_i hzero
      split
      · rename_i hm
        rw [hzero, hm] at hfields
        exact hfields
      · rename_i hm
        rw [hzero] at hfields ⊢
        exact (pack_subnormal _).trans hfields
    · exact (pack_normal hmax _).trans hfields

/-- A float is the float of its bits. -/
theorem ofBits_toBits (v : Float) : Float.ofBits v.toBits = v := by
  obtain ⟨bits, hv⟩ := v
  simp only [Float.ofBits, Float.toBits, Float.Model.ofBits, Float.Model.pack, pack_unpack hv]

/-- Bits up to those of the infinity without a sign are the bits of a float. -/
theorem valid_of_le {bits : UInt64} (h : bits.toNat ≤ 2047 * hiddenBit) :
    Format.binary64.Valid bits.toBitVec := by
  constructor
  intro he hm
  refine absurd (BitVec.eq_of_toNat_eq ?_) hm
  have hexp : bits.toNat / 2 ^ 52 % 2048 = 2047 := by
    simpa [unpackExponent, Nat.shiftRight_eq_div_pow] using congrArg BitVec.toNat he
  have hbit : hiddenBit = 4503599627370496 := rfl
  have hmant : bits.toNat % 2 ^ 52 = 0 := by omega
  simpa [unpackMantissa] using hmant

theorem toBits_ofBits {bits : UInt64} (h : Format.binary64.Valid bits.toBitVec) :
    (Float.ofBits bits).toBits = bits :=
  UInt64.eq_of_toBitVec_eq (pack_unpack h)

end Packing

section Sign

open Float.Model UnpackedFloat

variable {v : Float}

theorem nearestBits_le (n d : Nat) : nearestBits n d ≤ 2047 * hiddenBit := by
  unfold nearestBits
  split
  · exact Nat.zero_le _
  · exact Nat.min_le_right _ _

theorem toBits_toFloat (d : Decimal) :
    d.toFloat.toBits.toNat = nearestBits d.numerator d.denominator := by
  have hle := nearestBits_le d.numerator d.denominator
  have hbit : hiddenBit = 4503599627370496 := rfl
  have hnat : (UInt64.ofNat (nearestBits d.numerator d.denominator)).toNat =
      nearestBits d.numerator d.denominator :=
    UInt64.toNat_ofNat_of_lt' (by simp only [UInt64.size]; omega)
  rw [Decimal.toFloat, toBits_ofBits (valid_of_le (by rw [hnat]; exact hle)), hnat]

/-- The float nearest to a decimal has no sign. -/
theorem isNegative_toFloat (d : Decimal) : isNegative d.toFloat = false := by
  have hle := nearestBits_le d.numerator d.denominator
  have hbit : hiddenBit = 4503599627370496 := rfl
  rw [isNegative, toBits_toFloat, Nat.shiftRight_eq_div_pow, beq_eq_false_iff_ne]
  omega

theorem ofBitVec_unpackSign (h : isNegative v = false) :
    Sign.ofBitVec (@unpackSign Format.binary64 v.toModel.toBits.toBitVec) = .positive := by
  have hlt : v.toModel.toBits.toNat < 2 ^ 64 := v.toBits.toNat_lt
  have hbit : v.toModel.toBits.toNat >>> 63 ≠ 1 := beq_eq_false_iff_ne.mp h
  have hmod : v.toModel.toBits.toNat >>> 63 % 2 = 0 := by omega
  have hs : @unpackSign Format.binary64 v.toModel.toBits.toBitVec = 0#1 := by
    apply BitVec.eq_of_toNat_eq
    simpa [unpackSign] using hmod
  rw [Sign.ofBitVec, if_pos hs]

theorem positive_of_unpack_eq_zero {s : Sign} (h : isNegative v = false)
    (hz : v.toModel.unpack = .zero s) : s = .positive := by
  unfold Float.Model.unpack UnpackedFloat.unpack at hz
  dsimp only at hz
  rw [ofBitVec_unpackSign h] at hz
  split_ifs at hz
  cases hz
  rfl

end Sign

section Equality

open Float.Model UnpackedFloat

variable {x y : UnpackedFloat} {a b : Float}

theorem sign_eq_of_compare {s t : Sign} (h : compare s t = .eq) : s = t := by
  cases s <;> cases t
  · rfl
  · cases h
  · cases h
  · rfl

/-- What compares as equal is equal, except that the two zeros differ in their signs. -/
theorem eq_or_zero_of_compare (h : x.compare y = some .eq) :
    x = y ∨ ∃ s t, x = .zero s ∧ y = .zero t := by
  unfold UnpackedFloat.compare at h
  split at h <;> simp_all [Ordering.then_eq_eq]
  exact sign_eq_of_compare h

theorem compare_self (h : x ≠ .notANumber) : x.compare x = some .eq := by
  unfold UnpackedFloat.compare
  cases x with
  | notANumber => exact absurd rfl h
  | infinity s => cases s <;> rfl
  | zero s => rfl
  | finite s m e hm => cases s <;> simp

theorem beq_iff_compare : (a == b) = true ↔ a.toModel.unpack.compare b.toModel.unpack = some .eq := by
  change (a.toModel.unpack.compare b.toModel.unpack == some .eq) = true ↔ _
  exact beq_iff_eq

theorem eq_of_unpack_eq (h : a.toModel.unpack = b.toModel.unpack) : a = b := by
  have hbits : a.toModel.toBits.toBitVec = b.toModel.toBits.toBitVec := by
    rw [← pack_unpack a.toModel.valid, ← pack_unpack b.toModel.valid]
    exact congrArg (UnpackedFloat.pack .binary64) h
  obtain ⟨⟨a, ha⟩⟩ := a
  obtain ⟨⟨b, hb⟩⟩ := b
  obtain rfl : a = b := UInt64.eq_of_toBitVec_eq hbits
  rfl

/-- Floats without a sign that compare as equal are equal. -/
theorem eq_of_beq_unsigned (h : a == b) (ha : isNegative a = false) (hb : isNegative b = false) :
    a = b := by
  apply eq_of_unpack_eq
  obtain hab | ⟨s, t, hs, ht⟩ := eq_or_zero_of_compare (beq_iff_compare.mp h)
  · exact hab
  · rw [hs, ht, positive_of_unpack_eq_zero ha hs, positive_of_unpack_eq_zero hb ht]

end Equality

section Magnitude

variable {v : Float} {b : Binary}

open Float.Model in
theorem unpackExponent_ne (h : (magnitude? v).isSome) :
    @UnpackedFloat.unpackExponent Format.binary64 v.toModel.toBits.toBitVec ≠ -1#_ := by
  have hbits : v.toBits.toNat / hiddenBit % 2048 ≠ 2047 := by
    intro he
    simp only [magnitude?, he] at h
    cases h
  intro he
  have hn := congrArg BitVec.toNat he
  simp [UnpackedFloat.unpackExponent, Nat.shiftRight_eq_div_pow] at hn
  exact hbits hn

open Float.Model in
/-- A float with a magnitude is not infinite. -/
theorem isInf_eq_false (h : (magnitude? v).isSome) : v.isInf = false := by
  unfold Float.isInf Float.Model.isInf Float.Model.unpack UnpackedFloat.unpack
  simp only [unpackExponent_ne h, if_false]
  split
  · split <;> rfl
  · rfl

open Float.Model in
/-- A float with a magnitude compares as equal to itself. -/
theorem beq_self (h : (magnitude? v).isSome) : v == v := by
  have hn : v.toModel.unpack ≠ .notANumber := by
    unfold Float.Model.unpack UnpackedFloat.unpack
    simp only [unpackExponent_ne h, if_false]
    split
    · split <;> simp
    · simp
  exact beq_iff_compare.mpr (compare_self hn)

/-- The float nearest to a decimal has a magnitude, unless it is infinite. -/
theorem isSome_magnitude?_toFloat {d : Decimal} (h : d.toFloat.isInf = false) :
    (magnitude? d.toFloat).isSome := by
  have hinf : (Float.ofBits (UInt64.ofNat (2047 * hiddenBit))).isInf = true := by decide +kernel
  have hle := nearestBits_le d.numerator d.denominator
  have hne : nearestBits d.numerator d.denominator ≠ 2047 * hiddenBit := by
    intro he
    rw [Decimal.toFloat, he, hinf] at h
    cases h
  have hbit : hiddenBit = 4503599627370496 := rfl
  have hexp : d.toFloat.toBits.toNat / hiddenBit % 2048 ≠ 2047 := by
    rw [toBits_toFloat]
    rw [hbit] at hle hne ⊢
    omega
  simp only [magnitude?]
  split
  · rfl
  · next he => exact absurd he hexp
  · rfl

theorem magnitude?_cases (h : magnitude? v = some b) :
    v.toBits.toNat / hiddenBit % 2048 = 0 ∧ b = ⟨v.toBits.toNat % hiddenBit, -1074⟩ ∨
      ∃ e : ℕ, e = v.toBits.toNat / hiddenBit % 2048 ∧ 0 < e ∧ e < 2047 ∧
        b = ⟨hiddenBit + v.toBits.toNat % hiddenBit, e - 1075⟩ := by
  simp only [magnitude?] at h
  split at h
  · cases h
    exact .inl ⟨‹_›, rfl⟩
  · cases h
  · rename_i hzero hmax
    cases h
    have hlt := Nat.mod_lt (v.toBits.toNat / hiddenBit) (by norm_num : 0 < 2048)
    have hne : v.toBits.toNat / hiddenBit % 2048 ≠ 2047 := hmax
    exact .inr ⟨_, rfl, Nat.pos_of_ne_zero hzero, by omega, rfl⟩

theorem isMagnitude_of_magnitude? (h : magnitude? v = some b) : b.IsMagnitude := by
  have hbit : hiddenBit = 4503599627370496 := rfl
  have hmod := Nat.mod_lt v.toBits.toNat (by norm_num [hiddenBit] : 0 < hiddenBit)
  obtain ⟨-, rfl⟩ | ⟨e, -, hpos, hlt, rfl⟩ := magnitude?_cases h
  · exact ⟨by simp only; omega, le_rfl, by norm_num, fun he => absurd rfl he⟩
  · exact ⟨by simp only; omega, by simp only; omega, by simp only; omega, fun _ => Nat.le_add_right _ _⟩

theorem bits_of_magnitude? (h : magnitude? v = some b) (hs : isNegative v = false) :
    b.bits = v.toBits.toNat := by
  have hbit : hiddenBit = 4503599627370496 := rfl
  have hlt : v.toBits.toNat < 9223372036854775808 := by
    have hle := v.toBits.toNat_lt
    simp only [isNegative, Nat.shiftRight_eq_div_pow, beq_eq_false_iff_ne] at hs
    omega
  have hmod := Nat.mod_lt v.toBits.toNat (by norm_num [hiddenBit] : 0 < hiddenBit)
  obtain ⟨he, rfl⟩ | ⟨e, he, hpos, hlt', rfl⟩ := magnitude?_cases h
  · simp only [Binary.bits]
    rw [if_pos hmod]
    rw [hbit] at *
    omega
  · simp only [Binary.bits]
    rw [if_neg (by omega)]
    rw [hbit] at *
    omega

end Magnitude

end Scriptlet.Number
