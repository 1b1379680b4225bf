import Scriptlet.Text.Hex
import Scriptlet.Text.Quoted

/-!
# Flags

Arguments of the form `-name`, `-name=value` and `-name value`, with one dash or two. They end at the
first argument of another form, or after `--`. A switch takes a value only after an equals sign.

## Main definitions

* `Flag`: the name of a flag, its default, and what it is for
* `Flag.parse`: the flags that are given, and the arguments after them
* `FlagError`: why arguments are refused
* `Flag.usage`: the list of all flags
-/

namespace Scriptlet

inductive Flag.Value where
  | switch (on : Bool)
  | number (n : Int)
  | text (s : String)
  deriving DecidableEq, Repr

/-- A flag; the default tells which kind of values it takes. -/
structure Flag where
  name : String
  default : Flag.Value
  purpose : String
  deriving Repr

/-- Why a text is no value. -/
inductive Flag.Problem where
  | malformed
  | outOfRange
  deriving DecidableEq, Repr

def Flag.Problem.text : Flag.Problem → String
  | malformed => "parse error"
  | outOfRange => "value out of range"

/-- Why arguments are refused. -/
inductive FlagError where
  | help
  | badForm (argument : String)
  | unknown (name : String)
  | noValue (name : String)
  | badSwitch (name value : String)
  | badValue (name value : String) (problem : Flag.Problem)
  deriving DecidableEq, Repr

def FlagError.message : FlagError → String
  | help => "flag: help requested"
  | badForm argument => "bad flag syntax: " ++ argument
  | unknown name => "flag provided but not defined: -" ++ name
  | noValue name => "flag needs an argument: -" ++ name
  | badSwitch name value =>
    "invalid boolean value " ++ Text.quote value ++ " for -" ++ name ++ ": " ++
      Flag.Problem.malformed.text
  | badValue name value problem =>
    "invalid value " ++ Text.quote value ++ " for flag -" ++ name ++ ": " ++ problem.text

namespace Flag

/-- The two values of a switch. -/
def switch? (s : String) : Option Bool :=
  if ["1", "t", "T", "TRUE", "true", "True"].contains s then some true
  else if ["0", "f", "F", "FALSE", "false", "False"].contains s then some false
  else none

/-- The base of a number and its digits, which a zero or a letter after it announces. -/
def baseOf : List Char → Nat × List Char
  | '0' :: b :: d :: rest =>
    if b == 'b' || b == 'B' then (2, d :: rest)
    else if b == 'o' || b == 'O' then (8, d :: rest)
    else if b == 'x' || b == 'X' then (16, d :: rest)
    else (8, b :: d :: rest)
  | '0' :: rest => (8, rest)
  | cs => (10, cs)

/-- The value of digits of 64 bits, in which underscores count for nothing. -/
def digits (base : Nat) : List Char → Nat → Except Problem Nat
  | [], n => .ok n
  | c :: cs, n =>
    if c = '_' then digits base cs n
    else match Text.hexValue? c with
      | none => .error .malformed
      | some d =>
        if d ≥ base then .error .malformed
        else if n * base + d ≥ UInt64.size then .error .outOfRange
        else digits base cs (n * base + d)

/-- Whether every underscore stands between digits; `before` tells that a digit comes before. -/
def spaced (before : Bool) : List Char → Bool
  | [] => true
  | '_' :: c :: cs => before && c != '_' && spaced true cs
  | ['_'] => false
  | _ :: cs => spaced true cs

/-- A natural number below `2 ^ 64`. -/
def natural (cs : List Char) : Except Problem Nat := do
  if cs.isEmpty then throw .malformed
  let (base, ds) := baseOf cs
  let n ← digits base ds 0
  -- A letter that announces the base counts as a digit, as does a leading zero.
  if spaced (base != 10) ds then return n else throw .malformed

/-- A whole number of 64 bits with an optional sign. -/
def number (s : String) : Except Problem Int := do
  match s.toList with
  | '-' :: ds =>
    let n ← natural ds
    if Int64.minValue.toInt ≤ -(n : Int) then return -(n : Int) else throw .outOfRange
  | '+' :: ds | ds =>
    let n ← natural ds
    if (n : Int) ≤ Int64.maxValue.toInt then return n else throw .outOfRange

/-- The forms of an argument. -/
inductive Argument where
  /-- No flag; what it is and what follows it is left alone. -/
  | operand
  /-- The two dashes that end the flags. -/
  | terminator
  | malformed
  | flag (name : String) (value : Option String)

/-- The name and the value of a flag without its dashes. -/
def splitValue (cs : List Char) : Argument :=
  match cs with
  | [] => .malformed
  | c :: rest =>
    if c == '-' || c == '=' then .malformed
    else
      let name := String.ofList (c :: rest.takeWhile (· != '='))
      match rest.dropWhile (· != '=') with
      | _ :: value => .flag name (some (String.ofList value))
      | [] => .flag name none

def Argument.ofText (s : String) : Argument :=
  match s.toList with
  | ['-', '-'] => .terminator
  | '-' :: '-' :: cs => splitValue cs
  | '-' :: c :: cs => splitValue (c :: cs)
  | _ => .operand

/-- The value that a text stands for. -/
def read (f : Flag) (s : String) : Except FlagError Value :=
  match f.default with
  | .switch _ =>
    match switch? s with
    | some b => .ok (.switch b)
    | none => .error (.badSwitch f.name s)
  | .number _ =>
    match number s with
    | .ok n => .ok (.number n)
    | .error e => .error (.badValue f.name s e)
  | .text _ => .ok (.text s)

def isSwitch (f : Flag) : Bool :=
  match f.default with
  | .switch _ => true
  | _ => false

/-- The values that flags were given, latest first. -/
abbrev Settings := List (String × Value)

/-- The flags that are given, in front of `settings`, and the arguments after them. -/
def parse (flags : List Flag) (settings : Settings) :
    List String → Except FlagError (Settings × List String)
  | [] => .ok (settings, [])
  | argument :: rest =>
    match Argument.ofText argument with
    | .operand => .ok (settings, argument :: rest)
    | .terminator => .ok (settings, rest)
    | .malformed => .error (.badForm argument)
    | .flag name value =>
      match flags.find? (·.name == name) with
      | none => .error (if name == "help" || name == "h" then .help else .unknown name)
      | some f =>
        match value with
        | some text => do parse flags ((name, ← f.read text) :: settings) rest
        | none =>
          if f.isSwitch then parse flags ((name, .switch true) :: settings) rest
          else match rest with
            | [] => .error (.noValue name)
            | text :: rest => do parse flags ((name, ← f.read text) :: settings) rest

/-- The value of a flag. -/
def value (settings : Settings) (f : Flag) : Value := (settings.lookup f.name).getD f.default

/-- What stands for a value in the list of flags. -/
def Value.typeName : Value → String
  | switch _ => ""
  | number _ => "int"
  | text _ => "string"

/-- The note on a default, unless it is the one that goes without saying. -/
def Value.note : Value → String
  | switch b => if b then " (default true)" else ""
  | number n => if n = 0 then "" else " (default " ++ toString n ++ ")"
  | text s => if s = "" then "" else " (default " ++ Text.quote s ++ ")"

/-- A flag and its purpose; the purpose of a switch with one letter stands on the same line. -/
def describe (f : Flag) : String :=
  let type := f.default.typeName
  let front := "  -" ++ f.name ++ (if type = "" then "" else " " ++ type)
  let gap := if front.utf8ByteSize ≤ 4 then "\t" else "\n    \t"
  front ++ gap ++ f.purpose ++ f.default.note ++ "\n"

/-- The list of all flags of a command. -/
def usage (command : String) (flags : List Flag) : String :=
  (if command = "" then "Usage:\n" else "Usage of " ++ command ++ ":\n") ++
    String.join (flags.map describe)

end Flag

/-- What is written when arguments are refused. -/
def FlagError.report (e : FlagError) (command : String) (flags : List Flag) : String :=
  (if e = .help then "" else e.message ++ "\n") ++ Flag.usage command flags

end Scriptlet
