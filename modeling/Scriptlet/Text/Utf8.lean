/-!
# Texts as bytes

Files hold bytes and programs hold characters. A text is its UTF-8 encoding; in the other direction
every byte that starts no well-formed sequence reads as the replacement character.

## Main definitions

* `Text.decode`: the characters of a list of bytes
* `Text.isUtf8`: whether all bytes belong to well-formed sequences
-/

namespace Scriptlet.Text

/-- What stands for a byte that cannot be read. -/
def replacement : Char := '\uFFFD'

/-- The payload of a continuation byte. -/
def continuation? (b : UInt8) : Option Nat :=
  if 0x80 ≤ b && b ≤ 0xBF then some (b.toNat - 0x80) else none

/--
The character of the well-formed sequence that starts with `b`, and the number of bytes that it
takes from `rest`. Overlong forms, surrogates and code points above the last one are not well formed.
-/
def sequence? (b : UInt8) (rest : List UInt8) : Option (Char × Nat) :=
  if b < 0x80 then some (Char.ofNat b.toNat, 0)
  else if 0xC2 ≤ b && b ≤ 0xDF then
    match rest with
    | b₁ :: _ => do
      let x ← continuation? b₁
      return (Char.ofNat ((b.toNat - 0xC0) * 64 + x), 1)
    | _ => none
  else if 0xE0 ≤ b && b ≤ 0xEF then
    match rest with
    | b₁ :: b₂ :: _ => do
      let x ← continuation? b₁
      let y ← continuation? b₂
      let n := (b.toNat - 0xE0) * 4096 + x * 64 + y
      if n < 0x800 || (0xD800 ≤ n && n ≤ 0xDFFF) then none else return (Char.ofNat n, 2)
    | _ => none
  else if 0xF0 ≤ b && b ≤ 0xF4 then
    match rest with
    | b₁ :: b₂ :: b₃ :: _ => do
      let x ← continuation? b₁
      let y ← continuation? b₂
      let z ← continuation? b₃
      let n := (b.toNat - 0xF0) * 262144 + x * 4096 + y * 64 + z
      if n < 0x10000 || 0x10FFFF < n then none else return (Char.ofNat n, 3)
    | _ => none
  else none

/-- The characters of `bytes`, with a replacement for each byte that cannot be read. -/
def decode (bytes : List UInt8) : List Char :=
  match bytes with
  | [] => []
  | b :: rest =>
    match sequence? b rest with
    | some (c, n) => c :: decode (rest.drop n)
    | none => replacement :: decode rest
termination_by bytes.length
decreasing_by all_goals simp only [List.length_cons, List.length_drop]; omega

/-- Whether `bytes` is well-formed throughout. -/
def isUtf8 (bytes : List UInt8) : Bool :=
  match bytes with
  | [] => true
  | b :: rest =>
    match sequence? b rest with
    | some (_, n) => isUtf8 (rest.drop n)
    | none => false
termination_by bytes.length
decreasing_by simp only [List.length_cons, List.length_drop]; omega

/-- The text of a file. -/
def ofBytes (bytes : ByteArray) : String :=
  String.ofList (decode bytes.data.toList)

end Scriptlet.Text
