import Scriptlet.Number.Decimal
import Scriptlet.Text.Quoted

/-!
# Tokens

The words of a program: operators, brackets, numbers, identifiers, and literals, which are either
quoted texts or reserved words.

## Main definitions

* `Keyword`: the reserved words
* `Precedence`: how tightly an operator binds
* `Token.Kind`, `Token`: a token is its kind, the payload of that kind, and its line
* `Token.sameAs`: equality of tokens that ignores the line
* `Token.describe`: a token as messages show it
-/

namespace Scriptlet

/-- The reserved words; a quoted text has the keyword `none`. -/
inductive Keyword where
  | none
  | true
  | false
  | ifWord
  | endifWord
  | elseWord
  | elifWord
  | whileWord
  | breakWord
  | other (code : Int)
  deriving DecidableEq, Repr, Inhabited

namespace Keyword

/-- The number of a keyword. -/
def code : Keyword → Int
  | none => 0
  | true => 1
  | false => 2
  | ifWord => 3
  | endifWord => 4
  | elseWord => 5
  | elifWord => 6
  | whileWord => 7
  | breakWord => 8
  | other c => c

/-- The keyword with a given number. -/
def ofCode : Int → Keyword
  | 0 => none
  | 1 => true
  | 2 => false
  | 3 => ifWord
  | 4 => endifWord
  | 5 => elseWord
  | 6 => elifWord
  | 7 => whileWord
  | 8 => breakWord
  | c => other c

/-- The name of a keyword in reports. -/
def name : Keyword → String
  | none => "None"
  | true => "True"
  | false => "False"
  | ifWord => "If"
  | endifWord => "EndIf"
  | elseWord => "Else"
  | elifWord => "Elif"
  | whileWord => "While"
  | breakWord => "Break"
  | other _ => "Unknown"

/-- The reserved words with their spellings. -/
def spellings : List (String × Keyword) :=
  [("true", true), ("false", false), ("if", ifWord), ("endif", endifWord), ("else", elseWord),
    ("elif", elifWord), ("while", whileWord), ("break", breakWord)]

/-- The keyword that a word spells, if it is reserved. -/
def ofWord? (word : String) : Option Keyword :=
  spellings.lookup word

@[simp] theorem ofCode_code (c : Int) : (ofCode c).code = c := by
  unfold ofCode; split <;> rfl

end Keyword

/-- How tightly an operator binds, loosest first. -/
inductive Precedence where
  | default
  | addSubtract
  | multiplyDivide
  | power
  | negativeValue
  deriving DecidableEq, Repr, Inhabited

namespace Precedence

def rank : Precedence → Nat
  | default => 0
  | addSubtract => 1
  | multiplyDivide => 2
  | power => 3
  | negativeValue => 4

instance : LT Precedence := ⟨fun p q => p.rank < q.rank⟩

instance (p q : Precedence) : Decidable (p < q) := inferInstanceAs (Decidable (p.rank < q.rank))

theorem lt_iff_rank_lt {p q : Precedence} : p < q ↔ p.rank < q.rank := Iff.rfl

def name : Precedence → String
  | default => "Default"
  | addSubtract => "AddSubtract"
  | multiplyDivide => "MultiplyDivide"
  | power => "Power"
  | negativeValue => "NegativeValue"

def all : List Precedence := [default, addSubtract, multiplyDivide, power, negativeValue]

/-- The name of the level with a given number. -/
def nameOfCode (code : Int) : String :=
  ((all.find? fun p => (p.rank : Int) == code).map name).getD "Unknown"

end Precedence

/-- The kinds of token. -/
inductive Token.Kind where
  | endOfInput
  | whitespace
  | add
  | subtract
  | multiply
  | divide
  | power
  | assign
  | equals
  | leftParen
  | rightParen
  | leftBrace
  | rightBrace
  | number
  | identifier
  | literal
  | other (code : Int)
  deriving DecidableEq, Repr, Inhabited

namespace Token.Kind

/-- The number of a kind. -/
def code : Kind → Int
  | endOfInput => 0
  | whitespace => 1
  | add => 2
  | subtract => 3
  | multiply => 4
  | divide => 5
  | power => 6
  | assign => 7
  | equals => 8
  | leftParen => 9
  | rightParen => 10
  | leftBrace => 11
  | rightBrace => 12
  | number => 13
  | identifier => 14
  | literal => 15
  | other c => c

/-- The kind with a given number. -/
def ofCode : Int → Kind
  | 0 => endOfInput
  | 1 => whitespace
  | 2 => add
  | 3 => subtract
  | 4 => multiply
  | 5 => divide
  | 6 => power
  | 7 => assign
  | 8 => equals
  | 9 => leftParen
  | 10 => rightParen
  | 11 => leftBrace
  | 12 => rightBrace
  | 13 => number
  | 14 => identifier
  | 15 => literal
  | c => other c

/-- The spelling of an operator or bracket, and the name of any other kind. -/
def name : Kind → String
  | endOfInput => "EOF"
  | whitespace => "whitespace"
  | add => "+"
  | subtract => "-"
  | multiply => "*"
  | divide => "/"
  | power => "^"
  | assign => "="
  | equals => "=="
  | leftParen => "("
  | rightParen => ")"
  | leftBrace => "\x7b"
  | rightBrace => "\x7d"
  | number => "number"
  | identifier => "identifier"
  | literal => "literal"
  | other c => "unknown_kind_" ++ toString c

/-- How tightly a kind binds as an operator; what is no arithmetic operator does not bind. -/
def precedence : Kind → Precedence
  | add | subtract => .addSubtract
  | multiply | divide => .multiplyDivide
  | power => .power
  | _ => .default

/-- The five arithmetic operators. -/
def isArithmetic : Kind → Bool
  | add | subtract | multiply | divide | power => true
  | _ => false

@[simp] theorem code_ofCode (c : Int) : (ofCode c).code = c := by
  unfold ofCode; split <;> rfl

/-- Only the arithmetic operators bind at all. -/
theorem isArithmetic_iff_lt_precedence (k : Kind) :
    k.isArithmetic ↔ Precedence.default < k.precedence := by
  cases k <;> simp [isArithmetic, precedence, Precedence.lt_iff_rank_lt, Precedence.rank]

end Token.Kind

/-- A token: its kind, the payload that the kind asks for, and the line it starts on. -/
structure Token where
  kind : Token.Kind
  number : Float := 0
  text : String := ""
  keyword : Keyword := .none
  line : Nat := 0
  deriving DecidableEq, Repr, Inhabited

namespace Token

/-- The token that marks the end of the text. -/
def endOfInput (line : Nat) : Token := { kind := .endOfInput, line }

/-- A reserved word with its spelling. -/
def isKeyword (t : Token) (k : Keyword) : Bool :=
  t.kind == .literal && t.keyword == k

def precedence (t : Token) : Precedence := t.kind.precedence

/-- Whether two tokens are the same wherever they stand; numbers are compared as numbers. -/
def sameAs (a b : Token) : Bool :=
  a.kind == b.kind && a.number == b.number && a.text == b.text && a.keyword == b.keyword

/-- A token as messages show it. -/
def describe (t : Token) : String :=
  match t.kind with
  | .number => Number.text t.number
  | .identifier => t.text
  | .literal => if t.keyword = .none then Text.quote t.text else t.text
  | k => k.name

end Token

end Scriptlet
