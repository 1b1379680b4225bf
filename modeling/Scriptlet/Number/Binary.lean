/-!
# Binary numbers

The finite floats as exact binary numbers, and the float nearest to a fraction of whole numbers. What
has to be rounded exactly once is computed here on whole numbers and rounded at the end.

## Main definitions

* `Binary`: a natural number of powers of two
* `Number.magnitude?`: the exact magnitude of a finite float
* `Number.nearestBits`: the bits of the float nearest to a fraction, a tie going to the even significand
* `Binary.toFloat`: the nearest float
* `Number.fused`: a product and a sum with one rounding
* `Number.scale`, `Number.fraction`: a float times a power of two, and taken apart into one
-/

namespace Scriptlet

/-- The number `significand * 2 ^ exponent`. -/
structure Binary where
  significand : Nat
  exponent : Int
  deriving DecidableEq, Repr

namespace Binary

/-- A binary number is the fraction of its numerator and its denominator. -/
def numerator (b : Binary) : Nat := b.significand <<< b.exponent.toNat

@[inherit_doc numerator]
def denominator (b : Binary) : Nat := 1 <<< (-b.exponent).toNat

end Binary

namespace Number

/-- The first bit of a significand that has all of its 53 bits, which is `2 ^ 52`. It is not stored. -/
def hiddenBit : Nat := 0x10000000000000

/-- The sign bit of a float. -/
def isNegative (x : Float) : Bool :=
  x.toBits.toNat >>> 63 == 1

/-- The magnitude of a finite float; the infinities and the numbers that are none have none. -/
def magnitude? (x : Float) : Option Binary :=
  let bits := x.toBits.toNat
  let fraction := bits % hiddenBit
  match bits / hiddenBit % 2048 with
  | 0 => some ⟨fraction, -1074⟩
  | 2047 => none
  | e => some ⟨hiddenBit + fraction, (e : Int) - 1075⟩

/-- The quotient of `n` by `d`, rounded to the nearest; a tie goes to the even quotient. -/
def divRound (n d : Nat) : Nat :=
  let q := n / d
  let r := n % d
  if 2 * r > d || (2 * r == d && q % 2 == 1) then q + 1 else q

/-- The place of the first bit of a fraction: `2 ^ place ≤ n / d < 2 ^ (place + 1)`. -/
def binaryPlace (n d : Nat) : Int :=
  if d ≤ n then (n / d).log2 else -(((d - 1) / n).log2 : Int) - 1

/-- The bits of the float nearest to the fraction `n / d`, without a sign. -/
def nearestBits (n d : Nat) : Nat :=
  if n == 0 then 0
  else
    let last := max (binaryPlace n d - 52) (-1074)
    let kept := divRound (n <<< (-last).toNat) (d <<< last.toNat)
    -- `kept = 2 ^ 53` carries into the exponent field, where the sum below puts it.
    let bits := if kept < hiddenBit then kept else (last + 1074).toNat * hiddenBit + kept
    min bits (2047 * hiddenBit)

end Number

/-- The float nearest to a binary number with the given sign. -/
def Binary.toFloat (b : Binary) (negative : Bool) : Float :=
  let bits := Number.nearestBits b.numerator b.denominator
  Float.ofBits (UInt64.ofNat (bits + if negative then 1 <<< 63 else 0))

namespace Number

/-- A finite float as a whole number of `2 ^ exponent`. -/
def signed? (x : Float) : Option (Int × Int) :=
  (magnitude? x).map fun b => (if isNegative x then -(b.significand : Int) else b.significand, b.exponent)

/-- `a * b + c` rounded once, for finite operands; otherwise as the two operations give it. -/
def fused (a b c : Float) : Float :=
  match signed? a, signed? b, signed? c with
  | some (m, e), some (n, f), some (k, g) =>
    let low := min (e + f) g
    let power (exponent : Int) : Int := (1 <<< (exponent - low).toNat : Nat)
    let sum := m * n * power (e + f) + k * power g
    Binary.toFloat ⟨sum.natAbs, low⟩ (sum < 0)
  | _, _, _ => a * b + c

/-- `x * 2 ^ k`, rounded once. -/
def scale (x : Float) (k : Int) : Float :=
  match magnitude? x with
  | some b => Binary.toFloat ⟨b.significand, b.exponent + k⟩ (isNegative x)
  | none => x

/-- A float as `f * 2 ^ k` with `1/2 ≤ |f| < 1`; zero and what is not finite stay, with `k = 0`. -/
def fraction (x : Float) : Float × Int :=
  match magnitude? x with
  | some b =>
    if b.significand == 0 then (x, 0)
    else
      let k : Int := b.significand.log2 + 1
      (Binary.toFloat ⟨b.significand, -k⟩ (isNegative x), b.exponent + k)
  | none => (x, 0)

end Number

end Scriptlet
