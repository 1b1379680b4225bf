import Scriptlet.Yaml.Scalar
import Scriptlet.Yaml.Stream

/-!
# Writing records

A record is written with one field on a line, and a list of records with a dash in front of each. A
text is written without quotes if it reads back as that text; otherwise in single quotes, in double
quotes with escapes, or, if it has lines, as a block.

## Main definitions

* `Yaml.Form.ofText`: how a text is written
* `Yaml.Field`, `Yaml.print`: the fields of a record, and its text
-/

namespace Scriptlet.Yaml

/-- How a text is written. -/
inductive Form where
  | plain
  | single
  | double
  | block
  deriving DecidableEq, Repr

/-- Characters that are written as they are; a tab is not among them. -/
def isShown (c : Char) : Bool :=
  let n := c.toNat
  n == 0x0A || (0x20 ≤ n && n ≤ 0x7E) || (0xA0 ≤ n && n ≤ 0xFFFD && n != 0xFEFF)

/-- Whether two neighbours satisfy `p`. -/
def anyNeighbours (p : Char → Char → Bool) (cs : List Char) : Bool :=
  (cs.zip (cs.drop 1)).any fun (a, b) => p a b

/-- Whether a text without quotes would be read as markup. -/
def hasMarkup : List Char → Bool
  | [] => false
  | c :: cs =>
    "#,[]\x7b\x7d&*!|>'\"%@`".toList.contains c
    || ((c == '?' || c == ':' || c == '-') && cs.head?.all isBlank)
    || ['-', '-', '-'].isPrefixOf (c :: cs) || ['.', '.', '.'].isPrefixOf (c :: cs)
    || cs.getLast? == some ':'
    || anyNeighbours (fun a b => a == ':' && isBlank b) (c :: cs)
    || anyNeighbours (fun a b => (isBlank a || isBreak a) && b == '#') (c :: cs)

def isSpace (c : Char) : Bool := c == ' '

/-- Whether a space stands before a line break, where it would be lost. -/
def hasSpaceBreak : List Char → Bool := anyNeighbours fun a b => isSpace a && isBreak b

/-- Whether a space stands after a line break, where it would be lost. -/
def hasBreakSpace : List Char → Bool := anyNeighbours fun a b => isBreak a && isSpace b

/-- Whether every character is written as it is, tabs apart. -/
def allShown (cs : List Char) : Bool := cs.all fun c => isShown c || c == '\t'

def allowsPlain (cs : List Char) : Bool :=
  !cs.head?.any isSpace && !cs.getLast?.any isSpace && !cs.any isBreak && cs.all isShown
    && !hasMarkup cs

def allowsSingle (cs : List Char) : Bool :=
  cs.all isShown && !hasBreakSpace cs && !hasSpaceBreak cs

def allowsBlock (cs : List Char) : Bool :=
  allShown cs && !cs.getLast?.any isSpace && !hasSpaceBreak cs

/-- The first style that keeps the text. -/
def Form.ofText (s : String) : Form :=
  let cs := s.toList
  if cs.contains '\n' then (if allowsBlock cs then block else double)
  else if isAmbiguous s then double
  else if allowsPlain cs then plain
  else if allowsSingle cs then single
  else double

/-- A number in upper-case hexadecimal digits. -/
def capitalHex (width n : Nat) : List Char := (Text.hexDigits width n).map Char.toUpper

/-- The escape of a character in double quotes. -/
def escape (c : Char) : List Char :=
  match c with
  | '\x00' => ['\\', '0']
  | '\x07' => ['\\', 'a']
  | '\x08' => ['\\', 'b']
  | '\t' => ['\\', 't']
  | '\n' => ['\\', 'n']
  | '\x0b' => ['\\', 'v']
  | '\x0c' => ['\\', 'f']
  | '\r' => ['\\', 'r']
  | '\x1b' => ['\\', 'e']
  | '"' => ['\\', '"']
  | '\\' => ['\\', '\\']
  | '\u0085' => ['\\', 'N']
  | '\u2028' => ['\\', 'L']
  | '\u2029' => ['\\', 'P']
  | c =>
    if c.toNat ≤ 0xFF then '\\' :: 'x' :: capitalHex 2 c.toNat
    else if c.toNat ≤ 0xFFFF then '\\' :: 'u' :: capitalHex 4 c.toNat
    else '\\' :: 'U' :: capitalHex 8 c.toNat

/-- A text in double quotes. -/
def doubleQuoted (cs : List Char) : List Char :=
  let write (c : Char) : List Char :=
    if isShown c && !isBreak c && c != '"' && c != '\\' then [c] else escape c
  '"' :: (cs.flatMap write ++ ['"'])

/--
The lines of a text, each of them with `indent` spaces in front unless it is empty. `fresh` tells
that a line starts here.
-/
def indented (indent : Nat) (fresh : Bool) : List Char → List Char
  | [] => []
  | c :: cs =>
    if isBreak c then c :: indented indent true cs
    else (if fresh then List.replicate indent ' ' else []) ++ c :: indented indent false cs

/-- A text in single quotes, where a quote is written twice. -/
def singleQuoted (indent : Nat) (cs : List Char) : List Char :=
  '\'' :: (indented indent false (cs.flatMap fun c => if c == '\'' then [c, c] else [c]) ++ ['\''])

/-- How a block ends: without a line break, with one, or with those that the text has. -/
def chomping (cs : List Char) : List Char :=
  match cs.reverse with
  | a :: b :: _ => if !isBreak a then ['-'] else if isBreak b then ['+'] else []
  | [a] => if isBreak a then ['+'] else ['-']
  | [] => ['-']

/-- A text as a block. If it starts with a line break, that is the one that ends the header. -/
def block (indent : Nat) (cs : List Char) : List Char :=
  let width := if cs.head?.any fun c => isSpace c || isBreak c then ['2'] else []
  let start := if cs.head?.any isBreak then [] else ['\n']
  '|' :: (width ++ chomping cs ++ start ++ indented indent true cs)

/-- A text as the value of a field; `indent` spaces stand before its further lines. -/
def printText (indent : Nat) (s : String) : String :=
  match Form.ofText s with
  | .plain => s
  | .single => String.ofList (singleQuoted indent s.toList)
  | .double => String.ofList (doubleQuoted s.toList)
  | .block => String.ofList (block indent s.toList)

/-- The line of a field, or its lines if its text is a block. -/
def printEntry (indent : Nat) (key value : String) : String :=
  key ++ ": " ++ printText indent value ++ (if endsLine value then "" else "\n")
where
  /-- Whether the text is a block that ends with a line break. -/
  endsLine (value : String) : Bool :=
    Form.ofText value == .block && value.toList.getLast?.any isBreak

/-- The value of a field: a text, or a list of records of texts. -/
inductive Field where
  | text (value : String)
  | records (items : List (List (String × String)))
  deriving Repr

/-- One record of a list. -/
def printItem (fields : List (String × String)) : String :=
  match fields with
  | [] => ""
  | (key, value) :: rest =>
    "  - " ++ printEntry 6 key value ++
      String.join (rest.map fun (key, value) => "    " ++ printEntry 6 key value)

def Field.print (key : String) : Field → String
  | text value => printEntry 2 key value
  | records [] => key ++ ": []\n"
  | records items => key ++ ":\n" ++ String.join (items.map printItem)

/-- The text of a record. -/
def print (fields : List (String × Field)) : String :=
  String.join (fields.map fun (key, value) => value.print key)

end Scriptlet.Yaml
