import Scriptlet.Text.Utf8

/-!
# Character streams

A YAML file is a stream of characters in UTF-8 or UTF-16, which a byte order mark may announce. Most
control characters are not allowed in it.

## Main definitions

* `Yaml.SyntaxError`: why a file is no YAML
* `Yaml.characters`: the characters of a file
* `Yaml.isBlank`, `Yaml.isBreak`: spaces and tabs, and line breaks
-/

namespace Scriptlet.Yaml

/-- Why a file is no YAML. -/
structure SyntaxError where
  problem : String
  deriving DecidableEq, Repr

/-- Characters that a file may hold. -/
def isAllowed (c : Char) : Bool :=
  let n := c.toNat
  n == 0x09 || n == 0x0A || n == 0x0D || (0x20 ≤ n && n ≤ 0x7E) || n == 0x85 ||
    (0xA0 ≤ n && n ≤ 0xFFFD) || 0x10000 ≤ n

/-- The characters of UTF-16 units; `none` if a surrogate stands alone. -/
def ofUnits : List Nat → Option (List Char)
  | [] => some []
  | u :: rest =>
    if 0xD800 ≤ u && u < 0xDC00 then
      match rest with
      | v :: rest =>
        if 0xDC00 ≤ v && v < 0xE000 then
          (ofUnits rest).map (Char.ofNat (0x10000 + (u - 0xD800) * 1024 + (v - 0xDC00)) :: ·)
        else none
      | [] => none
    else if 0xDC00 ≤ u && u < 0xE000 then none
    else (ofUnits rest).map (Char.ofNat u :: ·)

/-- The units of pairs of bytes; `none` if a byte is left over. -/
def units (little : Bool) : List UInt8 → Option (List Nat)
  | [] => some []
  | [_] => none
  | a :: b :: rest =>
    let u := if little then b.toNat * 256 + a.toNat else a.toNat * 256 + b.toNat
    (units little rest).map (u :: ·)

/-- The characters of a file without its byte order mark. -/
def characters (bytes : List UInt8) : Except SyntaxError (List Char) := do
  let decoded : Option (List Char) := match bytes with
    | 0xFF :: 0xFE :: rest => (units true rest).bind ofUnits
    | 0xFE :: 0xFF :: rest => (units false rest).bind ofUnits
    | 0xEF :: 0xBB :: 0xBF :: rest => if Text.isUtf8 rest then some (Text.decode rest) else none
    | _ => if Text.isUtf8 bytes then some (Text.decode bytes) else none
  match decoded with
  | none => .error ⟨"invalid byte sequence"⟩
  | some cs => if cs.all isAllowed then .ok cs else .error ⟨"control characters are not allowed"⟩

/-- Spaces and tabs. -/
def isBlank (c : Char) : Bool := c == ' ' || c == '\t'

/-- Line breaks. -/
def isBreak (c : Char) : Bool :=
  c == '\n' || c == '\r' || c == '\u0085' || c == '\u2028' || c == '\u2029'

/-- The line break at the start of a text: how it reads, and how many characters it has. -/
def lineBreak? : List Char → Option (List Char × Nat)
  | '\r' :: '\n' :: _ => some (['\n'], 2)
  | c :: _ =>
    if c == '\u2028' || c == '\u2029' then some ([c], 1)
    else if isBreak c then some (['\n'], 1)
    else none
  | [] => none

end Scriptlet.Yaml
