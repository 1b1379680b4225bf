import Scriptlet.Text.Blank
import Scriptlet.Token

/-!
# From text to tokens

A program text is cut into lexemes from left to right, each the longest that its rule allows. A
number is a run of digits with at most one point; a word starts with a letter from `a` to `z` and
runs up to the next blank, so `x+1` is one word; a quoted text runs to the next quote or to the end
of the text; `==` is one lexeme; everything else is one character long. The character NUL ends the
text.

## Main definitions

* `Lexeme.first?`: the first lexeme of a text and what follows it
* `Lexeme.read`: the token that a lexeme stands for, or why it stands for none
* `Scanner.next`: the next token of a text, one call at a time
* `Tokens`, `Tokens.ofText`: all tokens of a text and how it ends
-/

namespace Scriptlet

/-- The lexical rules. -/
inductive Lexeme.Rule where
  | number
  | word
  | quoted
  | symbol (kind : Token.Kind)
  | blank
  | stop
  | unknown
  deriving DecidableEq, Repr

/-- A lexeme: the rule that it starts by, its own characters, and the characters after it. -/
structure Lexeme where
  rule : Lexeme.Rule
  span : List Char
  rest : List Char
  deriving DecidableEq, Repr

namespace Lexeme

/-- The longest run of digits with at most one point, or with none if one was `seen`. -/
def splitNumber (seen : Bool) : List Char → List Char × List Char
  | [] => ([], [])
  | c :: cs =>
    if c.isDigit then
      let (span, rest) := splitNumber seen cs
      (c :: span, rest)
    else if c = '.' ∧ seen = false then
      let (span, rest) := splitNumber true cs
      (c :: span, rest)
    else ([], c :: cs)

/-- The characters up to and with the next quote, or all of them. -/
def splitQuoted : List Char → List Char × List Char
  | [] => ([], [])
  | c :: cs =>
    if c = '"' then (['"'], cs)
    else
      let (span, rest) := splitQuoted cs
      (c :: span, rest)

/-- The rule of a character that is a lexeme of its own. -/
def singleRule (c : Char) : Rule :=
  match c with
  | '+' => .symbol .add
  | '-' => .symbol .subtract
  | '*' => .symbol .multiply
  | '/' => .symbol .divide
  | '^' => .symbol .power
  | '(' => .symbol .leftParen
  | ')' => .symbol .rightParen
  | '\x7b' => .symbol .leftBrace
  | '\x7d' => .symbol .rightBrace
  | '=' => .symbol .assign
  | ' ' | '\t' | '\r' | '\n' => .blank
  | '\x00' => .stop
  | _ => .unknown

/-- The first lexeme of a text. -/
def first? : List Char → Option Lexeme
  | [] => none
  | c :: cs => some <|
    if c.isDigit then
      let (span, rest) := splitNumber false cs
      ⟨.number, c :: span, rest⟩
    else if c.isLower then
      ⟨.word, c :: cs.takeWhile (!Text.isBlank ·), cs.dropWhile (!Text.isBlank ·)⟩
    else if c = '"' then
      let (span, rest) := splitQuoted cs
      ⟨.quoted, c :: span, rest⟩
    else if c = '=' ∧ cs.head? = some '=' then ⟨.symbol .equals, [c, '='], cs.drop 1⟩
    else ⟨singleRule c, [c], cs⟩

theorem splitNumber_append (seen : Bool) (cs : List Char) :
    (splitNumber seen cs).1 ++ (splitNumber seen cs).2 = cs := by
  induction cs generalizing seen with
  | nil => rfl
  | cons c cs ih =>
    unfold splitNumber
    split
    · simp [ih]
    · split
      · simp [ih]
      · rfl

theorem splitQuoted_append (cs : List Char) : (splitQuoted cs).1 ++ (splitQuoted cs).2 = cs := by
  induction cs with
  | nil => rfl
  | cons c cs ih =>
    unfold splitQuoted
    split
    · simp_all
    · simp [ih]

/-- Nothing of the text is lost between a lexeme and what follows it. -/
theorem span_append_rest {cs : List Char} {l : Lexeme} (h : first? cs = some l) :
    l.span ++ l.rest = cs := by
  cases cs with
  | nil => cases h
  | cons c cs =>
    simp only [first?, Option.some.injEq] at h
    subst h
    split
    · simp [splitNumber_append]
    · split
      · simp
      · split
        · simp [splitQuoted_append]
        · split
          · rename_i h
            cases cs with
            | nil => simp at h
            | cons d ds => simp_all
          · rfl

/-- A lexeme has at least one character. -/
theorem span_ne_nil {cs : List Char} {l : Lexeme} (h : first? cs = some l) : l.span ≠ [] := by
  cases cs with
  | nil => cases h
  | cons c cs =>
    simp only [first?, Option.some.injEq] at h
    subst h
    repeat' split
    all_goals simp

theorem length_rest_lt {cs : List Char} {l : Lexeme} (h : first? cs = some l) :
    l.rest.length < cs.length := by
  have happ := congrArg List.length (span_append_rest h)
  have hpos := List.length_pos_iff.mpr (span_ne_nil h)
  simp only [List.length_append] at happ
  omega

end Lexeme

/-- Why a lexeme stands for no token. -/
inductive ScanProblem where
  /-- A parenthesis follows a number directly. -/
  | calledNumber (digits : List Char)
  /-- A number is out of range. -/
  | hugeNumber (digits : List Char)
  /-- No rule starts with this character. -/
  | unexpected (char : Char)
  deriving DecidableEq, Repr

namespace ScanProblem

def message : ScanProblem → String
  | calledNumber digits => "malformed number " ++ String.ofList digits ++ "("
  | hugeNumber digits => "malformed number " ++ String.ofList digits
  | unexpected c => "unexpected character " ++ Text.quoteChar c

/-- The character to blame. -/
def char : ScanProblem → Char
  | calledNumber _ => '('
  | hugeNumber digits => digits.headD '0'
  | unexpected c => c

end ScanProblem

/-- A problem and the line of the lexeme that has it. -/
structure ScanError where
  problem : ScanProblem
  line : Nat
  deriving DecidableEq, Repr

namespace ScanError

/-- A scanner's message with its line. -/
def located (line : Int) (message : String) : String :=
  "line " ++ toString line ++ ": " ++ message

def message (e : ScanError) : String := located e.line e.problem.message

end ScanError

namespace Lexeme

/-- The token of a lexeme, on no line yet. -/
def read (l : Lexeme) : Except ScanProblem Token :=
  match l.rule with
  | .number =>
    if l.rest.head? = some '(' then .error (.calledNumber l.span)
    else
      let value := (Decimal.ofDigits l.span).toFloat
      if value.isInf then .error (.hugeNumber l.span) else .ok { kind := .number, number := value }
  | .word =>
    let word := String.ofList l.span
    match Keyword.ofWord? word with
    | some k => .ok { kind := .literal, text := word, keyword := k }
    | none => .ok { kind := .identifier, text := word }
  | .quoted => .ok { kind := .literal, text := String.ofList ((l.span.drop 1).takeWhile (· != '"')) }
  | .symbol k => .ok { kind := k }
  | .blank => .ok { kind := .whitespace }
  | .stop => .ok { kind := .endOfInput }
  | .unknown => .error (.unexpected (l.span.headD ' '))

/-- Where reading goes on: nothing follows the character that ends the text. -/
def remainder (l : Lexeme) : List Char :=
  if l.rule = .stop then [] else l.rest

theorem length_remainder_lt {cs : List Char} {l : Lexeme} (h : first? cs = some l) :
    l.remainder.length < cs.length := by
  have := length_rest_lt h
  unfold remainder
  split
  · exact Nat.lt_of_le_of_lt (Nat.zero_le _) this
  · exact this

end Lexeme

/-- What is left of a text, the line reached in it, and the failure that stopped it, if one did. -/
structure Scanner where
  rest : List Char
  line : Nat := 1
  failure : Option ScanError := none
  deriving Repr

namespace Scanner

def ofText (text : String) : Scanner := { rest := text.toList }

/--
The next token. The end of the text is a token, which comes again and again; a scanner that has
failed once has no more tokens.
-/
def next (s : Scanner) : Option Token × Scanner :=
  if s.failure.isSome then (none, s)
  else match Lexeme.first? s.rest with
    | none => (some (Token.endOfInput s.line), s)
    | some l =>
      match l.read with
      | .error p => (none, { s with failure := some ⟨p, s.line⟩ })
      | .ok t =>
        (some { t with line := s.line },
          { s with rest := l.remainder, line := s.line + l.span.count '\n' })

/-- The answers of the next `n` calls, and the scanner after them. -/
def calls (s : Scanner) : (n : Nat) → List (Option Token) × Scanner
  | 0 => ([], s)
  | n + 1 =>
    let (t, s') := s.next
    let (ts, s'') := s'.calls n
    (t :: ts, s'')

end Scanner

/-- The tokens of a text in order, and how the text ends: properly, or at a failure. -/
inductive Tokens where
  | done (line : Nat)
  | failed (error : ScanError)
  | cons (token : Token) (rest : Tokens)
  deriving Repr

namespace Tokens

/-- The tokens of `cs`, which starts on the given line. -/
def ofChars (cs : List Char) (line : Nat) : Tokens :=
  match _h : Lexeme.first? cs with
  | none => .done line
  | some l =>
    match l.read with
    | .error p => .failed ⟨p, line⟩
    | .ok t =>
      if l.rule = .stop then .done line
      else .cons { t with line } (ofChars l.remainder (line + l.span.count '\n'))
termination_by cs.length
decreasing_by exact Lexeme.length_remainder_lt _h

/-- The tokens of a text. -/
def ofText (text : String) : Tokens := ofChars text.toList 1

/-- The tokens without the whitespace. -/
def significant : Tokens → Tokens
  | done line => done line
  | failed e => failed e
  | cons t rest => if t.kind = .whitespace then rest.significant else cons t rest.significant

/-- The tokens in front of the end or the failure. -/
def toList : Tokens → List Token
  | done _ => []
  | failed _ => []
  | cons t rest => t :: rest.toList

/-- The failure at the end, if there is one. -/
def failure? : Tokens → Option ScanError
  | done _ => none
  | failed e => some e
  | cons _ rest => rest.failure?

end Tokens

end Scriptlet
