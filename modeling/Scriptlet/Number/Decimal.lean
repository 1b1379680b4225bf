import Scriptlet.Number.Binary

/-!
# Decimal numbers and binary floats

A binary float is written as the decimal with the fewest digits that still reads back as the same
float; among those the nearest one is taken, and of two that are equally near the one with the even
last digit. The text is positional and never has an exponent.

## Main definitions

* `Decimal`: a natural number of powers of ten
* `Decimal.toFloat`: the float nearest to a decimal, ties going to the even significand
* `Decimal.shortest`: the shortest decimal that reads back as a given float
* `Number.text`: the text of a float
-/

namespace Scriptlet

/-- The number `digits * 10 ^ exponent`. -/
structure Decimal where
  digits : Nat
  exponent : Int
  deriving DecidableEq, Repr

namespace Binary

/--
The reals that round to a binary number, in quarters of its last place. They reach half a place up,
and half a place down unless the number below is nearer by half. Their ends belong to them if the
significand is even.
-/
structure Neighbourhood where
  lowest : Nat
  centre : Nat
  highest : Nat
  closed : Bool
  /-- The power of two that one quarter stands for. -/
  exponent : Int

/-- The reals that round to `b`. -/
def neighbourhood (b : Binary) : Neighbourhood where
  lowest :=
    if b.significand == Number.hiddenBit && b.exponent > -1074 then 4 * b.significand - 1
    else 4 * b.significand - 2
  centre := 4 * b.significand
  highest := 4 * b.significand + 2
  closed := b.significand % 2 == 0
  exponent := b.exponent - 2

namespace Neighbourhood

/--
The multiple `d` of `10 ^ place` and `n` quarters are compared as `d * unit` and `n * quarter`, which
are whole numbers.
-/
def unit (v : Neighbourhood) (place : Int) : Nat :=
  Nat.pow 10 place.toNat <<< (-v.exponent).toNat

@[inherit_doc unit]
def quarter (v : Neighbourhood) (place : Int) : Nat :=
  Nat.pow 10 (-place).toNat <<< v.exponent.toNat

/-- Whether `d * 10 ^ place` is in the neighbourhood. -/
def has (v : Neighbourhood) (place : Int) (d : Nat) : Bool :=
  let x := d * v.unit place
  let lowest := v.lowest * v.quarter place
  let highest := v.highest * v.quarter place
  if v.closed then lowest ≤ x && x ≤ highest else lowest < x && x < highest

end Neighbourhood

/--
The least `j ≤ bound` for which `n * 10 ^ j` reaches `d`, or `bound` if none does: how far down the
first decimal place of the fraction `n / d` is.
-/
def leadingPlace (n d : Nat) : (bound : Nat) → Nat
  | 0 => 0
  | bound + 1 => if d ≤ n then 0 else leadingPlace (n * 10) d bound + 1

/-- The place of the first digit: `10 ^ place ≤ value < 10 ^ (place + 1)`. -/
def decimalPlace (b : Binary) : Int :=
  if b.denominator ≤ b.numerator then
    ((Nat.toDigits 10 (b.numerator / b.denominator)).length : Int) - 1
  else -(leadingPlace b.numerator b.denominator 400 : Int)

/--
The decimal on the grid of multiples of `10 ^ place` that rounds to `b`, if there is one. Only the
two multiples around the value can be the nearest one.
-/
def onGrid? (b : Binary) (place : Int) : Option Decimal :=
  let v := b.neighbourhood
  let unit := v.unit place
  let below := v.centre * v.quarter place / unit
  let rest := v.centre * v.quarter place % unit
  match v.has place below, v.has place (below + 1) with
  | false, false => none
  | true, false => some ⟨below, place⟩
  | false, true => some ⟨below + 1, place⟩
  | true, true =>
    if 2 * rest < unit || (2 * rest == unit && below % 2 == 0) then some ⟨below, place⟩
    else some ⟨below + 1, place⟩

/-- The first hit on the grids that give at least `18 - more` digits, of at most 17. -/
def shortestFrom (b : Binary) (first : Int) : (more : Nat) → Decimal
  | 0 => ⟨b.significand, b.exponent⟩
  | more + 1 => (b.onGrid? (first - (17 - (more + 1) : Nat))).getD (shortestFrom b first more)

end Binary

namespace Decimal

/-- The same number without trailing zeros among its digits, of which at most `bound` go. -/
def stripZeros (d : Decimal) : (bound : Nat) → Decimal
  | 0 => d
  | bound + 1 =>
    if d.digits % 10 == 0 && d.digits != 0 then
      stripZeros ⟨d.digits / 10, d.exponent + 1⟩ bound
    else d

/-- The shortest decimal that rounds to `b`. -/
def shortest (b : Binary) : Decimal :=
  if b.significand == 0 then ⟨0, 0⟩
  else (b.shortestFrom b.decimalPlace 17).stripZeros 20

/-- A decimal is the fraction of its numerator and its denominator. -/
def numerator (d : Decimal) : Nat := d.digits * Nat.pow 10 d.exponent.toNat

@[inherit_doc numerator]
def denominator (d : Decimal) : Nat := Nat.pow 10 (-d.exponent).toNat

/-- The float nearest to a decimal; a tie goes to the even significand. -/
def toFloat (d : Decimal) : Float :=
  Float.ofBits (UInt64.ofNat (Number.nearestBits d.numerator d.denominator))

/-- The decimal digits of a natural number. -/
def natDigits (n : Nat) : List Char :=
  Nat.toDigits 10 n

/-- A decimal in positional notation; a point is written only in front of a fraction. -/
def positional (d : Decimal) : List Char :=
  let ds := natDigits d.digits
  match d.exponent with
  | .ofNat k => if d.digits == 0 then ['0'] else ds ++ List.replicate k '0'
  | .negSucc k =>
    let places := k + 1
    let padded := List.replicate (places + 1 - ds.length) '0' ++ ds
    padded.take (padded.length - places) ++ '.' :: padded.drop (padded.length - places)

/-- The decimal that a run of digits with at most one point stands for. -/
def ofDigits (cs : List Char) : Decimal :=
  let whole := cs.takeWhile (· != '.')
  let fraction := (cs.dropWhile (· != '.')).drop 1
  let value := (whole ++ fraction).foldl (fun n c => n * 10 + (c.toNat - 48)) 0
  ⟨value, -(fraction.length : Int)⟩

end Decimal

namespace Number

/-- The text of a float: its shortest decimal, or the name of a value that is not finite. -/
def text (x : Float) : String :=
  match magnitude? x with
  | some b =>
    let ds := (Decimal.shortest b).positional
    String.ofList (if isNegative x then '-' :: ds else ds)
  | none =>
    if x.isNaN then "NaN" else if isNegative x then "-Inf" else "+Inf"

end Number

end Scriptlet
