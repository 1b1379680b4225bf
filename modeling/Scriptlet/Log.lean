import Scriptlet.Text.Blank
import Scriptlet.Text.Case
import Scriptlet.Text.Quoted

/-!
# Logs

What a run reports on the side. An entry has a level, a message and named fields; a logger drops the
entries below its threshold and writes one line for each of the others, as `key=value` pairs or as a
JSON object.

## Main definitions

* `Log.Entry`: what is reported
* `Logger`: from which level on, and how
* `Logger.ofLevel?`: a logger for the name of a level, which may have an offset
* `Logger.write`: the lines of some entries
-/

namespace Scriptlet

namespace Log

inductive Level where
  | debug
  | info
  | warn
  | error
  deriving DecidableEq, Repr

def Level.severity : Level → Int
  | debug => -4
  | info => 0
  | warn => 4
  | error => 8

def Level.name : Level → String
  | debug => "DEBUG"
  | info => "INFO"
  | warn => "WARN"
  | error => "ERROR"

/-- The value of a field. -/
inductive Field where
  | text (value : String)
  | count (value : Nat)
  deriving Repr

structure Entry where
  level : Level
  message : String
  fields : List (String × Field)
  deriving Repr

/-- The level that a name stands for, in any letter case. -/
def levelOfName? (name : List Char) : Option Level :=
  let name := String.ofList (name.map Text.capital)
  [Level.debug, .info, .warn, .error].find? (·.name == name)

/-- A sign and decimal digits. -/
def offset? : List Char → Option Int
  | sign :: ds =>
    if !ds.isEmpty && ds.all Char.isDigit then
      let n : Int := (ds.foldl (fun n c => n * 10 + (c.toNat - 48)) 0 : Nat)
      let n := if sign == '-' then -n else n
      if Int64.minValue.toInt ≤ n && n ≤ Int64.maxValue.toInt then some n else none
    else none
  | [] => none

/-- The severity that a level's name stands for, with an optional offset such as `+2` behind it. -/
def severity? (text : String) : Option Int := do
  let isSign (c : Char) : Bool := c == '+' || c == '-'
  let name := text.toList.takeWhile (!isSign ·)
  let rest := text.toList.dropWhile (!isSign ·)
  let shift ← if rest.isEmpty then some 0 else offset? rest
  let level ← levelOfName? name
  return level.severity + shift

/-- Whether a text has to be quoted to be a value in a line of `key=value` pairs. -/
def needsQuotes (s : String) : Bool :=
  s.isEmpty || s.toList.any fun c =>
    if c.toNat < 0x80 then c.toNat < 0x20 || c == ' ' || c == '=' || c == '"'
    else c == '\uFFFD' || Text.isBlank c || !Text.isPrintable c

/-- A text as a value in a line of `key=value` pairs. -/
def plainText (s : String) : String :=
  if needsQuotes s then Text.quote s else s

/-- How a character is written in a JSON text. -/
def jsonEscape (c : Char) : List Char :=
  match c with
  | '"' => ['\\', '"']
  | '\\' => ['\\', '\\']
  | '\n' => ['\\', 'n']
  | '\r' => ['\\', 'r']
  | '\t' => ['\\', 't']
  | '\x08' => ['\\', 'b']
  | '\x0c' => ['\\', 'f']
  | c =>
    if c.toNat < 0x20 || c == '\u2028' || c == '\u2029' then '\\' :: 'u' :: Text.hexDigits 4 c.toNat
    else [c]

def jsonText (s : String) : String :=
  String.ofList ('"' :: (s.toList.flatMap jsonEscape ++ ['"']))

def Field.plain : Field → String
  | .text s => plainText s
  | .count n => toString n

def Field.json : Field → String
  | .text s => jsonText s
  | .count n => toString n

/-- A line of `key=value` pairs. -/
def Entry.plain (e : Entry) (time : String) : String :=
  "time=" ++ time ++ " level=" ++ e.level.name ++ " msg=" ++ plainText e.message ++
    String.join (e.fields.map fun (k, v) => " " ++ k ++ "=" ++ v.plain) ++ "\n"

/-- A line that is a JSON object. -/
def Entry.json (e : Entry) (time : String) : String :=
  "\x7b" ++ "\"time\":" ++ jsonText time ++ ",\"level\":" ++ jsonText e.level.name ++ ",\"msg\":" ++
    jsonText e.message ++
    String.join (e.fields.map fun (k, v) => "," ++ jsonText k ++ ":" ++ v.json) ++ "\x7d\n"

end Log

/-- From which severity on a logger writes, and in which of the two formats. -/
structure Logger where
  threshold : Int
  json : Bool
  deriving Repr

namespace Logger

/-- A logger for the name of a level. -/
def ofLevel? (level : String) (json : Bool) : Except String Logger :=
  match Log.severity? level with
  | some threshold => .ok ⟨threshold, json⟩
  | none => .error ("invalid log level " ++ Text.quote level)

/-- The lines for the entries that reach the threshold. -/
def write (logger : Logger) (time : String) (entries : List Log.Entry) : String :=
  String.join <| (entries.filter (logger.threshold ≤ ·.level.severity)).map fun e =>
    if logger.json then e.json time else e.plain time

end Logger

end Scriptlet
