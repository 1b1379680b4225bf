import Scriptlet.Number.Binary

/-!
# Powers

The operator `^` on floats. A whole exponent is worked off by repeated squaring of the fraction of
the base, while the powers of two are summed apart; what is left of the exponent after its nearest
whole number goes through the exponential and the logarithm. So a power is not always the float
nearest to the exact power.

## Main definitions

* `Number.logarithm`: the natural logarithm of a positive number
* `Number.exponential`: the exponential of a number
* `Number.power`: one number to the power of another
-/

namespace Scriptlet.Number

/-- The natural logarithm of 2, a part with few digits and the remainder. -/
def ln2High : Float := 6.93147180369123816490e-01
@[inherit_doc ln2High]
def ln2Low : Float := 1.90821492927058770002e-10

/--
The natural logarithm of a positive finite number. With `x = 2 ^ k * (1 + f)` around 1 and
`s = f / (2 + f)`, the logarithm of `1 + f` is an odd polynomial in `s`.
-/
def logarithm (x : Float) : Float :=
  let (f₀, k₀) := fraction x
  let small := f₀ < 7.07106781186547524401e-01
  let f := (if small then f₀ * 2 else f₀) - 1
  let k := Float.ofInt (if small then k₀ - 1 else k₀)
  let s := f / (2 + f)
  let s2 := s * s
  let s4 := s2 * s2
  let odd := s2 * (6.666666666666735130e-01 + s4 * (2.857142874366239149e-01 +
    s4 * (1.818357216161805012e-01 + s4 * 1.479819860511658591e-01)))
  let even := s4 * (3.999999999940941908e-01 + s4 * (2.222219843214978396e-01 +
    s4 * 1.531383769920937332e-01))
  let r := odd + even
  let half := 0.5 * f * f
  k * ln2High - ((half - (s * (half + r) + k * ln2Low)) - f)

/-- The Taylor coefficients of `(exp x - 1) / x`, highest first. -/
def exponentialTerms : List Float :=
  [1.9841269841269841270e-4, 1.3888888888888888889e-3, 8.3333333333333333333e-3,
    4.1666666666666666667e-2, 1.6666666666666666667e-1, 0.5, 1]

/-- The whole number nearest to a float of moderate size, a tie going to the even one. -/
def nearestInt (x : Float) : Int :=
  match magnitude? x with
  | some b =>
    let n := divRound b.numerator b.denominator
    if isNegative x then -n else n
  | none => 0

/--
The exponential. The multiple of `ln 2` nearest to `x` goes into the exponent; a sixteenth of the
rest goes through the Taylor polynomial, and `exp (2 y) - 1 = (exp y - 1) * (exp y + 1)`, taken four
times, undoes the sixteenth. Products that feed a sum are rounded with it.
-/
def exponential (x : Float) : Float :=
  if x.isNaN then x
  else if x > 7.09782712893384e+02 then 1 / 0
  else if x < -7.5e+02 then 0
  else
    let n := nearestInt (1.4426950408889634073599246810018920 * x)
    let k := Float.ofInt (-n)
    let r := fused k 0.28235290563031577122588448175013436025525412068e-12
      (fused k 0.69314718055966295651160180568695068359375 x)
    let y := r * 0.0625
    let p := exponentialTerms.foldl (fun p c => fused p y c) 2.4801587301587301587e-5
    let square (e : Float) : Float := e * (e + 2)
    let e := square (square (square (y * p)))
    scale (fused (e + 2) e 1) n

/-- A float of magnitude below `2 ^ 63`, which is not negative, as a whole number and a rest. -/
def wholeAndRest (x : Float) : Nat × Float :=
  let n := x.toUInt64
  (n.toNat, x - n.toFloat)

/-- Whether a float is an odd whole number; from `2 ^ 53` on all are even. -/
def isOdd (x : Float) : Bool :=
  if x.abs ≥ 9007199254740992 then false
  else
    let (n, rest) := wholeAndRest x.abs
    rest == 0 && n % 2 == 1

/--
`mantissa * 2 ^ exponent` times `base * 2 ^ shift` to the power `n`, by repeated squaring. Once the
powers of two are out of all bounds, the rest of the exponent no longer matters.
-/
def powerLoop (n : Nat) (base : Float) (shift : Int) (mantissa : Float) (exponent : Int) :
    Float × Int :=
  if n = 0 then (mantissa, exponent)
  else if shift < -4096 || 4096 < shift then (mantissa, exponent + shift)
  else
    let (m, e) := if n % 2 = 1 then (mantissa * base, exponent + shift) else (mantissa, exponent)
    let squared := base * base
    if squared < 0.5 then powerLoop (n / 2) (squared + squared) (shift * 2 - 1) m e
    else powerLoop (n / 2) squared (shift * 2) m e
termination_by n
decreasing_by all_goals omega

/-- The power of a finite base other than 0 and 1 to a finite exponent other than 0, 1 and ±1/2. -/
def finitePower (x y : Float) : Float :=
  let size := y.abs
  if size ≥ 9223372036854775808 then
    if x == -1 then 1 else if (x.abs < 1) == (y > 0) then 0 else 1 / 0
  else
    let (n, rest) := wholeAndRest size
    if rest != 0 && x < 0 then 0 / 0
    else
      let (n, rest) := if rest > 0.5 then (n + 1, rest - 1) else (n, rest)
      let start := if rest != 0 then exponential (rest * logarithm x) else 1
      let (base, shift) := fraction x
      let (m, e) := powerLoop n base shift start 0
      if y < 0 then scale (1 / m) (-e) else scale m e

/-- `x` to the power `y`, with the special cases of IEEE 754. -/
def power (x y : Float) : Float :=
  let infinity : Float := 1 / 0
  if y == 0 || x == 1 then 1
  else if y == 1 then x
  else if x.isNaN || y.isNaN then 0 / 0
  else if x == 0 then
    if y < 0 then
      if isNegative x && isOdd y then -infinity else infinity
    else if isNegative x && isOdd y then x else 0
  else if y.isInf then
    if x == -1 then 1 else if (x.abs < 1) == (y > 0) then 0 else infinity
  else if x.isInf then
    if x < 0 then
      -- The reciprocal is -0 to the power -y.
      if y > 0 then (if isOdd y then -infinity else infinity)
      else if isOdd y then -0.0 else 0
    else if y < 0 then 0 else infinity
  else if y == 0.5 then x.sqrt
  else if y == -0.5 then 1 / x.sqrt
  else finitePower x y

end Scriptlet.Number
