import Scriptlet.Node.Parser
import Scriptlet.Token.Lexer

/-!
# Reading by recursive descent

The parser once more, with one procedure for each construct. The procedures call one another and
share a reader, which holds one token of lookahead and the rest of the text. The end of the text can
be read again and again, so nothing in the form of the procedures makes them return: a procedure is
a partial function, which has no outcome where it does not return.

An expression is told how many expressions it stands in, which a bound may limit, and the precedence
that its operators have to exceed.

## Main definitions

* `Descent.Reader`, `Descent.Procedure`: the shared state, and what runs on it
* `Descent.Routine`: a procedure with arguments
* `Descent.expression`, `Descent.block`, `Descent.link`: the procedures
* `Descent.parse`: the statements of a text, if there is an outcome
-/

namespace Scriptlet.Descent

/-- The lookahead, and the lexer behind it. -/
structure Reader where
  current : Token
  lexer : Lexer

/-- What runs on a reader. It may return a value, refuse the text, or not return. -/
abbrev Procedure (α : Type) : Type := StateT Reader (ExceptT ParseError Option) α

/-- A procedure that depends on arguments. -/
abbrev Routine (args α : Type) : Type := ReaderT args Procedure α

/-- What comes of running a procedure on a reader: nothing if it does not return. -/
def Procedure.outcome {α : Type} (x : Procedure α) (r : Reader) :
    Option (Except ParseError (α × Reader)) :=
  (x.run r).run

def lookahead : Procedure Token := do return (← get).current

/-- The text is wrong at the lookahead. -/
def refuse {α : Type} (problem : ParseProblem) : Procedure α := do
  throw (.atToken (← lookahead) problem)

/-- Why a lexer has no token, by its error; a lexer without one is reported on the given line. -/
def scanError (s : Lexer) (line : Nat) : ParseError :=
  match s.error with
  | some e => ⟨.unreadable e, none, e.line⟩
  | none => ⟨.invalidCharacter, none, line⟩

/-- The first token of the lexer that is not whitespace becomes the lookahead. -/
def seek : Routine Lexer Unit := fun s => do
  match s.next with
  | (none, s) => throw (scanError s (← lookahead).line)
  | (some t, s) =>
    if t.kind = .whitespace then
      modify ({ · with lexer := s })
      seek.run s
    else set (⟨t, s⟩ : Reader)
partial_fixpoint

/-- The next token that is not whitespace becomes the lookahead. -/
def advance : Procedure Unit := do seek (← get).lexer

def expect (kind : Token.Kind) (problem : ParseProblem) : Procedure Unit := do
  if (← lookahead).kind = kind then advance else refuse problem

variable (bound : Nat)

mutual

/-- An expression inside of `depth` others: a first operand, and every operator above `floor`. -/
def expression : Routine (Nat × Precedence) Node := fun (depth, floor) => do
  if 0 < bound ∧ bound < depth + 1 then refuse (.tooDeep bound)
  else operators.run (depth + 1, floor, ← primary.run (depth + 1))
partial_fixpoint

def operators : Routine (Nat × Precedence × Node) Node := fun (depth, floor, left) => do
  let t ← lookahead
  if t.kind ≠ .endOfInput ∧ floor < t.precedence then
    operators.run (depth, floor, ← operation.run (depth, left))
  else return left
partial_fixpoint

/-- One operator with its right operand. -/
def operation : Routine (Nat × Node) Node := fun (depth, left) => do
  let t ← lookahead
  if t.kind.isArithmetic then
    advance
    return .binary t.kind left (← expression.run (depth, t.precedence))
  else refuse .badOperator
partial_fixpoint

def primary : Routine Nat Node := fun depth => do
  let t ← lookahead
  match t.kind with
  | .subtract =>
    advance
    comparison.run (depth, .negative (← negated.run depth))
  | .number =>
    advance
    comparison.run (depth, .number t.number)
  | .leftParen =>
    advance
    let inner ← expression.run (depth, .default)
    expect .rightParen .expectedParen
    return inner
  | .identifier =>
    advance
    named.run (depth, t.text)
  | .literal =>
    match t.keyword with
    | .ifWord => conditional.run depth
    | .elifWord => return Parser.chainNode .elifWord (← link.run depth)
    | .elseWord => return Parser.chainNode .elseWord (← link.run depth)
    | .whileWord => loop.run depth
    | k =>
      advance
      comparison.run (depth, .literal t.text k)
  | .endOfInput => refuse .unexpectedEnd
  | _ => refuse .badStart
partial_fixpoint

/-- What a minus stands in front of. -/
def negated : Routine Nat Node := fun depth => do
  let t ← lookahead
  match t.kind with
  | .number =>
    advance
    return .number t.number
  | .identifier =>
    advance
    return .identifier t.text
  | _ => expression.run (depth, .negativeValue)
partial_fixpoint

/-- An operand that an equality sign may follow. -/
def comparison : Routine (Nat × Node) Node := fun (depth, left) => do
  if (← lookahead).kind = .equals then
    advance
    return .condition left (← expression.run (depth, .default))
  else return left
partial_fixpoint

/-- What follows an identifier. -/
def named : Routine (Nat × String) Node := fun (depth, name) => do
  if (← lookahead).kind = .assign then
    advance
    return .assignment (some name) (← expression.run (depth, .default))
  else comparison.run (depth, .identifier name)
partial_fixpoint

def conditional : Routine Nat Node := fun depth => do
  advance
  let test ← expression.run (depth, .default)
  let body ← block.run (depth, test, .ifWord)
  return Parser.chainNode .ifWord ((test, body) :: (← links.run depth))
partial_fixpoint

/-- The branches that follow a block, if the lookahead starts one. -/
def links : Routine Nat (List (Node × List Node)) := fun depth => do
  let t ← lookahead
  if t.isKeyword .elseWord || t.isKeyword .elifWord then link.run depth else return []
partial_fixpoint

/-- A branch and those that follow it. Nothing follows a branch without a test. -/
def link : Routine Nat (List (Node × List Node)) := fun depth => do
  let t ← lookahead
  advance
  if t.isKeyword .elifWord then
    let test ← expression.run (depth, .default)
    let body ← block.run (depth, test, .elifWord)
    return (test, body) :: (← links.run depth)
  else
    let body ← block.run (depth, .missing, .elseWord)
    let next ← lookahead
    if next.isKeyword .elseWord || next.isKeyword .elifWord then refuse .afterFinalElse
    else return [(.missing, body)]
partial_fixpoint

def loop : Routine Nat Node := fun depth => do
  advance
  let test ← loopTest.run depth
  return .whileLoop test (← block.run (depth, test, .whileWord))
partial_fixpoint

/-- The test of a loop, which may be left out. -/
def loopTest : Routine Nat Node := fun depth => do
  if (← lookahead).kind = .leftBrace then return .missing
  else expression.run (depth, .default)
partial_fixpoint

def block : Routine (Nat × Node × Owner) (List Node) := fun (depth, test, owner) => do
  expect .leftBrace (.missingOpening test owner)
  statements.run (depth, test, owner, [])
partial_fixpoint

/-- The statements of a block up to its closing brace, after those of `body`. -/
def statements : Routine (Nat × Node × Owner × List Node) (List Node) :=
  fun (depth, test, owner, body) => do
    match (← lookahead).kind with
    | .rightBrace =>
      advance
      return body
    | .endOfInput => refuse (.missingClosing test owner)
    | _ => statements.run (depth, test, owner, body ++ [← expression.run (depth, .default)])
partial_fixpoint

end

/-- The statements of a text up to its end, after those that are `done`. -/
def program : Routine (List Node) (List Node) := fun done => do
  if (← lookahead).kind = .endOfInput then return done
  else program.run (done ++ [← expression bound (0, .default)])
partial_fixpoint

/-- The whole text, from its first token on. -/
def whole : Procedure (List Node) := do
  advance
  program bound []

/-- The statements of a text, if there is an outcome. A bound of zero is none. -/
def parse (text : String) : Option (Except ParseError (List Node)) :=
  ((whole bound).outcome ⟨.endOfInput 0, .ofText text⟩).map fun out => out.map Prod.fst

end Scriptlet.Descent
