import Scriptlet.Number.Decimal
import Scriptlet.Text.Hex

/-!
# What a scalar stands for

A scalar without quotes may be read as a null, a boolean, a number or a time. Base 60 numbers and the
words `yes`, `no`, `on` and `off` are texts, though other readers take them for numbers and booleans.

## Main definitions

* `Yaml.Scalar`: what a scalar stands for
* `Yaml.Scalar.ofText`: the reading of a scalar without quotes
* `Yaml.Scalar.ofTagged?`: the reading that a tag asks for
* `Yaml.isAmbiguous`: whether some reader would not take a text for a text
-/

namespace Scriptlet.Yaml

/-- What a scalar stands for; a custom tag leaves it as it is. -/
inductive Scalar where
  | null
  | boolean (value : Bool)
  | int (value : Int)
  | float (value : Float)
  | timestamp
  | text
  | custom (tag : String)

def Scalar.tag : Scalar → String
  | null => "!!null"
  | boolean _ => "!!bool"
  | int _ => "!!int"
  | float _ => "!!float"
  | timestamp => "!!timestamp"
  | text => "!!str"
  | custom tag => tag

/-- The digits of a natural number in a base up to 16. -/
def natOfDigits? (base : Nat) (cs : List Char) : Option Nat :=
  if cs.isEmpty then none
  else cs.foldlM step 0
where
  step (n : Nat) (c : Char) : Option Nat := do
    let d ← Text.hexValue? c
    if d < base then some (n * base + d) else none

/-- A natural number in base 10, or with a prefix in base 2, 8 or 16; a leading zero means base 8. -/
def prefixedNat? : List Char → Option Nat
  | '0' :: b :: d :: ds =>
    if b == 'x' || b == 'X' then natOfDigits? 16 (d :: ds)
    else if b == 'o' || b == 'O' then natOfDigits? 8 (d :: ds)
    else if b == 'b' || b == 'B' then natOfDigits? 2 (d :: ds)
    else natOfDigits? 8 (b :: d :: ds)
  | '0' :: [d] => natOfDigits? 8 [d]
  | cs => natOfDigits? 10 cs

/-- A number with an optional sign, in the range of 64 bits; without a sign it may use all of them. -/
def int? (nat? : List Char → Option Nat) (cs : List Char) : Option Int := do
  let (negative, signed, ds) := match cs with
    | '-' :: ds => (true, true, ds)
    | '+' :: ds => (false, true, ds)
    | ds => (false, false, ds)
  let n ← nat? ds
  if negative then (if Int64.minValue.toInt ≤ -(n : Int) then some (-(n : Int)) else none)
  else if n ≤ Int64.maxValue.toInt || (!signed && n < UInt64.size) then some n
  else none

/-- A whole number. -/
def wholeNumber? (cs : List Char) : Option Int :=
  match int? prefixedNat? cs with
  | some n => some n
  | none =>
    match cs with
    | '0' :: 'b' :: ds => int? (natOfDigits? 2) ds
    | '0' :: 'o' :: ds => int? (natOfDigits? 8) ds
    | _ => none

/--
A decimal fraction: an optional sign, digits, a point and more digits, of which there is at least
one, and an optional exponent. Out of range it is none.
-/
def decimal? (cs : List Char) : Option Float := do
  let (negative, cs) := match cs with
    | '-' :: cs => (true, cs)
    | '+' :: cs => (false, cs)
    | cs => (false, cs)
  let whole := cs.takeWhile Char.isDigit
  let cs := cs.drop whole.length
  let (fraction, cs) := match cs with
    | '.' :: cs => (cs.takeWhile Char.isDigit, cs.dropWhile Char.isDigit)
    | cs => ([], cs)
  if whole.isEmpty && fraction.isEmpty then none
  let exponent ← match cs with
    | [] => some 0
    | e :: cs =>
      if e == 'e' || e == 'E' then
        match cs with
        | '-' :: ds => (natOfDigits? 10 ds).map fun n => -(n : Int)
        | '+' :: ds => (natOfDigits? 10 ds).map fun n => (n : Int)
        | ds => (natOfDigits? 10 ds).map fun n => (n : Int)
      else none
  let digits := (whole ++ fraction).foldl (fun n c => n * 10 + (c.toNat - 48)) 0
  -- Exponents beyond these bounds change nothing.
  let size : Int := (whole ++ fraction).length + 400
  let exponent := max (-size) (min size (exponent - fraction.length))
  let value := (⟨digits, exponent⟩ : Decimal).toFloat
  if value.isInf then none else some (if negative then -value else value)

/-- One or two digits below `limit`, and what follows them. -/
def shortNumber? (limit : Nat) (cs : List Char) : Option (Nat × List Char) := do
  let ds := (cs.take 2).takeWhile Char.isDigit
  let n ← natOfDigits? 10 ds
  if n < limit then some (n, cs.drop ds.length) else none

/-- A character, and what follows it. -/
def expect? (c : Char) : List Char → Option (List Char)
  | d :: cs => if c == d then some cs else none
  | [] => none

/-- The days of a month. -/
def daysIn (year month : Nat) : Nat :=
  if month == 2 then
    if year % 4 == 0 && (year % 100 != 0 || year % 400 == 0) then 29 else 28
  else if month == 4 || month == 6 || month == 9 || month == 11 then 30 else 31

/-- Hours, minutes and seconds with an optional fraction, and what follows them. -/
def clock? (cs : List Char) : Option (List Char) := do
  let (_, cs) ← shortNumber? 24 cs
  let (_, cs) ← shortNumber? 60 (← expect? ':' cs)
  let (_, cs) ← shortNumber? 60 (← expect? ':' cs)
  match cs with
  | p :: d :: rest =>
    if (p == '.' || p == ',') && d.isDigit then some (rest.dropWhile Char.isDigit) else some cs
  | _ => some cs

/-- A time zone, after which nothing follows. -/
def isZone : List Char → Bool
  | ['Z'] => true
  | [s, a, b, ':', c, d] =>
    (s == '+' || s == '-') && (natOfDigits? 10 [a, b]).any (· ≤ 24) &&
      (natOfDigits? 10 [c, d]).any (· ≤ 60)
  | _ => false

/-- A date, or a date and a time of day, with a zone after a `T` and without one after a space. -/
def isTimestamp (cs : List Char) : Bool :=
  let year := cs.takeWhile Char.isDigit
  year.length == 4 && (do
    let y ← natOfDigits? 10 year
    let (m, cs) ← shortNumber? 13 (← expect? '-' (cs.drop 4))
    let (d, cs) ← shortNumber? 32 (← expect? '-' cs)
    if m == 0 || d == 0 || d > daysIn y m then none
    else match cs with
      | [] => some true
      | c :: rest =>
        if c == 'T' || c == 't' then (clock? rest).map isZone
        else if c == ' ' then (clock? (rest.dropWhile (· == ' '))).map List.isEmpty
        else none).getD false

namespace Scalar

/-- The texts that stand for something else. -/
def words : List (String × Scalar) :=
  [("", null), ("~", null), ("null", null), ("Null", null), ("NULL", null),
    ("true", boolean true), ("True", boolean true), ("TRUE", boolean true),
    ("false", boolean false), ("False", boolean false), ("FALSE", boolean false),
    (".nan", float (0 / 0)), (".NaN", float (0 / 0)), (".NAN", float (0 / 0)),
    (".inf", float (1 / 0)), (".Inf", float (1 / 0)), (".INF", float (1 / 0)),
    ("+.inf", float (1 / 0)), ("+.Inf", float (1 / 0)), ("+.INF", float (1 / 0)),
    ("-.inf", float (-1 / 0)), ("-.Inf", float (-1 / 0)), ("-.INF", float (-1 / 0))]

/-- The reading of a text that starts with a digit, a sign or a point. -/
def ofNumeric (cs : List Char) : Scalar :=
  if cs.head? == some '.' then
    -- Here an underscore may only stand between digits.
    let spaced := (cs.zip (cs.drop 1)).all fun (a, b) =>
      (a != '_' || b.isDigit) && (b != '_' || a.isDigit)
    if cs.getLast? != some '_' && spaced then
      ((decimal? (cs.filter (· != '_'))).map float).getD text
    else text
  else if isTimestamp cs then timestamp
  else
    let plain := cs.filter (· != '_')
    match wholeNumber? plain with
    | some n => int n
    | none => ((decimal? plain).map float).getD text

/-- The reading of a scalar without quotes. -/
def ofText (s : String) : Scalar :=
  match words.lookup s with
  | some v => v
  | none =>
    match s.toList with
    | c :: cs => if c.isDigit || c == '+' || c == '-' || c == '.' then ofNumeric (c :: cs) else text
    | [] => null

/-- The reading that a tag asks for, if the text admits it. Tags of other kinds admit every text. -/
def ofTagged? (tag s : String) : Option Scalar :=
  if tag == "!!str" then some text
  else if ["!!bool", "!!int", "!!float", "!!null", "!!timestamp"].contains tag then
    let v := ofText s
    if v.tag == tag then some v
    else match v with
      | int n => if tag == "!!float" then some (float (Float.ofInt n)) else none
      | _ => none
  else some (custom tag)

end Scalar

/-- The booleans of older versions. -/
def oldBooleans : List String :=
  ["y", "Y", "yes", "Yes", "YES", "on", "On", "ON", "n", "N", "no", "No", "NO", "off", "Off", "OFF"]

/-- The numbers in base 60 of older versions: digits and groups of up to two digits after colons. -/
def isBase60 (cs : List Char) : Bool :=
  let cs := match cs with
    | '-' :: cs | '+' :: cs => cs
    | cs => cs
  match cs with
  | c :: rest => c.isDigit && groups (rest.dropWhile isDigitOrMark) (rest.length + 1) false
  | [] => false
where
  isDigitOrMark (c : Char) : Bool := c.isDigit || c == '_'
  /-- Whether the rest is groups, of which at least one is still missing unless `some`. -/
  groups (cs : List Char) (fuel : Nat) (seen : Bool) : Bool :=
    match fuel, cs with
    | 0, _ => false
    | _, [] => seen
    | fuel + 1, ':' :: a :: b :: rest =>
      if '0' ≤ a && a ≤ '5' && b.isDigit then groups rest fuel true
      else a.isDigit && groups (b :: rest) fuel true
    | _, [':', a] => a.isDigit
    | _, '.' :: rest => seen && rest.all isDigitOrMark
    | _, _ => false

/-- Whether some reader would not take the text for a text if it had no quotes. -/
def isAmbiguous (s : String) : Bool :=
  (Scalar.ofText s).tag != "!!str" || isBase60 s.toList || oldBooleans.contains s

end Scriptlet.Yaml
