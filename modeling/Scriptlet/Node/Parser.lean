import Scriptlet.Node.Printer
import Scriptlet.Token.Scanner

/-!
# From tokens to trees

The parser eats one token at a time. Its state is a stack of the constructs that are still open and
what it expects on top of them. A token either starts or extends the construct on top, or it
completes constructs: a completed node is handed down the stack until some construct, or an operator
that binds tightly enough, takes the token.

Each frame of the stack stands for one open expression, so the length of the stack is the depth of
nesting, which a bound may limit. A bound of zero is none.

## Main definitions

* `ParseError`: what is wrong, and at which token
* `Parser.State`, `Parser.feed`: the state of the parser, and how a token changes it
* `Parser.parse`: the statements of a text
-/

namespace Scriptlet

/-- The words that own a block. -/
inductive Owner where
  | ifWord
  | elifWord
  | elseWord
  | whileWord
  deriving DecidableEq, Repr

def Owner.name : Owner → String
  | ifWord => "If"
  | elifWord => "Elif"
  | elseWord => "Else"
  | whileWord => "While"

/-- The two classes of parse errors. -/
inductive ParseError.Kind where
  /-- A token that cannot stand where it stands. -/
  | invalidOperator
  /-- A broken structure, such as a missing brace, or a text that cannot be scanned. -/
  | unableToParse
  deriving DecidableEq, Repr

def ParseError.Kind.name : ParseError.Kind → String
  | invalidOperator => "InvalidOperator"
  | unableToParse => "UnableToParse"

/-- The name of the class with a given number. -/
def ParseError.Kind.nameOfCode : Int → String
  | 0 => invalidOperator.name
  | 1 => unableToParse.name
  | c => "ErrorKind(" ++ toString c ++ ")"

/-- What can be wrong with a text. -/
inductive ParseProblem where
  | unexpectedEnd
  | badStart
  | expectedParen
  | badOperator
  | missingOpening (test : Node) (owner : Owner)
  | missingClosing (test : Node) (owner : Owner)
  | tooDeep (bound : Nat)
  | afterFinalElse
  | unreadable (error : ScanError)
  /-- The scanner stopped without a reason. -/
  | invalidCharacter

/-- A problem, the token it was found at unless the text could not be scanned, and its line. -/
structure ParseError where
  problem : ParseProblem
  token : Option Token
  line : Nat

namespace ParseError

/-- The error of a problem found at `t`. -/
def atToken (t : Token) (problem : ParseProblem) : ParseError :=
  ⟨problem, some t, t.line⟩

def kind (e : ParseError) : Kind :=
  match e.problem with
  | .unexpectedEnd | .badStart | .expectedParen | .badOperator => .invalidOperator
  | _ => .unableToParse

/-- The condition of the block that is not opened or not closed, if it has one. -/
def condition (e : ParseError) : Node :=
  match e.problem with
  | .missingOpening test _ | .missingClosing test _ => test
  | _ => .missing

/-- The text ended before a construct was complete, so more text could complete it. -/
def incomplete (e : ParseError) : Bool :=
  match e.token with
  | some t => t.kind == .endOfInput
  | none => false

/-- The owner of a block in messages: its condition, or else its word. -/
def blockName (test : Node) (owner : Owner) : String :=
  if test.isMissing then owner.name else "`" ++ test.format ++ "`"

/-- The message without the line. -/
def detail (e : ParseError) : String :=
  let token := e.token.getD default
  match e.problem with
  | .unexpectedEnd => "unexpected end of input"
  | .badStart => "bad start of statement: " ++ token.describe
  | .expectedParen => "expected `)` but found " ++ token.describe
  | .badOperator => "bad token " ++ token.describe
  | .missingOpening test owner => "missing opening brace for " ++ blockName test owner
  | .missingClosing test owner => "missing closing brace for " ++ blockName test owner
  | .tooDeep bound => "nesting deeper than " ++ toString bound ++ " levels"
  | .afterFinalElse => token.text ++ " after the final else branch"
  | .unreadable error => error.problem.message
  | .invalidCharacter => "invalid character"

/-- A parser's message, with its line if there is one. -/
def located (line : Int) (detail : String) : String :=
  if line > 0 then "parser: line " ++ toString line ++ ": " ++ detail else "parser: " ++ detail

def message (e : ParseError) : String := located e.line e.detail

end ParseError

namespace Parser

/-- The head of a block: who owns it, its test, and the branches in front of it in its chain. -/
structure Head where
  owner : Owner
  test : Node
  /-- The word that the whole chain starts with. -/
  first : Owner
  earlier : List (Node × List Node)

/-- A construct that waits for an expression to be complete. -/
inductive Pending where
  /-- The right operand of an operator. -/
  | operand (left : Node) (op : Token.Kind)
  /-- The operand of a unary minus. -/
  | negation
  /-- What stands between parentheses. -/
  | group
  /-- The value of an assignment. -/
  | value (target : String)
  /-- The right side of an equality test. -/
  | comparand (left : Node)
  /-- The test of a block; the head has all but the test. -/
  | test (head : Head)
  /-- One more statement of a block. -/
  | statement (head : Head) (body : List Node)

/-- An open construct, and the precedence that the expression around it has to exceed. -/
structure Frame where
  pending : Pending
  floor : Precedence

/-- What is expected next. -/
inductive Control where
  /-- A statement, or the end of the text. -/
  | top
  /-- A statement of a block, or its closing brace. -/
  | block (floor : Precedence) (head : Head) (body : List Node)
  /-- The start of an expression whose operators bind tighter than `floor`. -/
  | start (floor : Precedence)
  /-- The operand of a minus that was just read. -/
  | negated (floor : Precedence)
  /-- What follows an identifier. -/
  | named (floor : Precedence) (name : String)
  /-- What follows an operand that an equality sign may follow. -/
  | atom (floor : Precedence) (node : Node)
  /-- What follows an operand. -/
  | complete (floor : Precedence) (node : Node)
  /-- What follows the word `while`. -/
  | loop (floor : Precedence)
  /-- The opening brace of a block. -/
  | opening (floor : Precedence) (head : Head)
  /-- What follows a block of a conditional: another branch, or not. -/
  | branches (floor : Precedence) (first last : Owner) (links : List (Node × List Node))

/-- What is expected, the open constructs, innermost first, and the statements read so far. -/
structure State where
  control : Control
  frames : List Frame
  done : List Node

def State.initial : State := ⟨.top, [], []⟩

/-- The node of a conditional, from the word it starts with and its branches in order. -/
def chainNode (first : Owner) : List (Node × List Node) → Node
  | [] => .missing
  | (test, body) :: links =>
    if first = .ifWord then .ifElse test body (Chain.ofLinks links)
    else .elseLink test body (Chain.ofLinks links)

/-- The head of a chain's first block. -/
def Head.starting (owner : Owner) : Head := ⟨owner, .missing, owner, []⟩

variable (bound : Nat)

/-- A token that starts an expression. -/
def startWith (floor : Precedence) (frames : List Frame) (done : List Node) (t : Token) :
    Except ParseError State :=
  if 0 < bound ∧ bound < frames.length + 1 then .error (.atToken t (.tooDeep bound))
  else match t.kind with
    | .subtract => .ok ⟨.negated floor, frames, done⟩
    | .number => .ok ⟨.atom floor (.number t.number), frames, done⟩
    | .leftParen => .ok ⟨.start .default, ⟨.group, floor⟩ :: frames, done⟩
    | .identifier => .ok ⟨.named floor t.text, frames, done⟩
    | .literal =>
      match t.keyword with
      | .ifWord => .ok ⟨.start .default, ⟨.test (.starting .ifWord), floor⟩ :: frames, done⟩
      | .elifWord => .ok ⟨.start .default, ⟨.test (.starting .elifWord), floor⟩ :: frames, done⟩
      | .elseWord => .ok ⟨.opening floor (.starting .elseWord), frames, done⟩
      | .whileWord => .ok ⟨.loop floor, frames, done⟩
      | k => .ok ⟨.atom floor (.literal t.text k), frames, done⟩
    | .endOfInput => .error (.atToken t .unexpectedEnd)
    | _ => .error (.atToken t .badStart)

/-- A token between the statements of the text. -/
def atTop (frames : List Frame) (done : List Node) (t : Token) : Except ParseError State :=
  if t.kind = .endOfInput then .ok ⟨.top, frames, done⟩
  else startWith bound .default frames done t

/-- A token between the statements of a block. -/
def inBlock (floor : Precedence) (head : Head) (body : List Node) (frames : List Frame)
    (done : List Node) (t : Token) : Except ParseError State :=
  match t.kind with
  | .rightBrace =>
    if head.owner = .whileWord then .ok ⟨.complete floor (.whileLoop head.test body), frames, done⟩
    else .ok ⟨.branches floor head.first head.owner (head.earlier ++ [(head.test, body)]), frames, done⟩
  | .endOfInput => .error (.atToken t (.missingClosing head.test head.owner))
  | _ => startWith bound .default (⟨.statement head body, floor⟩ :: frames) done t

/-- A token where a block has to open. -/
def openBlock (floor : Precedence) (head : Head) (frames : List Frame) (done : List Node)
    (t : Token) : Except ParseError State :=
  if t.kind = .leftBrace then .ok ⟨.block floor head [], frames, done⟩
  else .error (.atToken t (.missingOpening head.test head.owner))

/-- A token after an operand that an equality sign may follow: the sign opens an equality test. -/
def compare (floor : Precedence) (left : Node) (frames : List Frame) (done : List Node) : State :=
  ⟨.start .default, ⟨.comparand left, floor⟩ :: frames, done⟩

/--
A token after a complete operand. An operator that binds tighter than `floor` takes the operand as
its left one; otherwise the expression is complete, and the innermost open construct takes it.
-/
def deliver (t : Token) (floor : Precedence) (node : Node) :
    (frames : List Frame) → (done : List Node) → Except ParseError State
  | frames, done =>
    if floor < t.precedence then
      if t.kind.isArithmetic then
        .ok ⟨.start t.precedence, ⟨.operand node t.kind, floor⟩ :: frames, done⟩
      else .error (.atToken t .badOperator)
    else match frames with
      | [] => atTop bound [] (done ++ [node]) t
      | ⟨.operand left op, outer⟩ :: frames => deliver t outer (.binary op left node) frames done
      | ⟨.negation, outer⟩ :: frames =>
        if t.kind = .equals then .ok (compare outer (.negative node) frames done)
        else deliver t outer (.negative node) frames done
      | ⟨.group, outer⟩ :: frames =>
        if t.kind = .rightParen then .ok ⟨.complete outer node, frames, done⟩
        else .error (.atToken t .expectedParen)
      | ⟨.value target, outer⟩ :: frames =>
        deliver t outer (.assignment (some target) node) frames done
      | ⟨.comparand left, outer⟩ :: frames => deliver t outer (.condition left node) frames done
      | ⟨.test head, outer⟩ :: frames => openBlock outer { head with test := node } frames done t
      | ⟨.statement head body, outer⟩ :: frames =>
        inBlock bound outer head (body ++ [node]) frames done t

/-- The state after one more token. -/
def feed (s : State) (t : Token) : Except ParseError State :=
  match s.control with
  | .top => atTop bound s.frames s.done t
  | .block floor head body => inBlock bound floor head body s.frames s.done t
  | .start floor => startWith bound floor s.frames s.done t
  | .negated floor =>
    match t.kind with
    | .number => .ok { s with control := .atom floor (.negative (.number t.number)) }
    | .identifier => .ok { s with control := .atom floor (.negative (.identifier t.text)) }
    | _ => startWith bound .negativeValue (⟨.negation, floor⟩ :: s.frames) s.done t
  | .named floor name =>
    match t.kind with
    | .assign => .ok ⟨.start .default, ⟨.value name, floor⟩ :: s.frames, s.done⟩
    | .equals => .ok (compare floor (.identifier name) s.frames s.done)
    | _ => deliver bound t floor (.identifier name) s.frames s.done
  | .atom floor node =>
    if t.kind = .equals then .ok (compare floor node s.frames s.done)
    else deliver bound t floor node s.frames s.done
  | .complete floor node => deliver bound t floor node s.frames s.done
  | .loop floor =>
    if t.kind = .leftBrace then .ok { s with control := .block floor (.starting .whileWord) [] }
    else startWith bound .default (⟨.test (.starting .whileWord), floor⟩ :: s.frames) s.done t
  | .opening floor head => openBlock floor head s.frames s.done t
  | .branches floor first last links =>
    if t.isKeyword .elseWord || t.isKeyword .elifWord then
      if last = .elseWord then .error (.atToken t .afterFinalElse)
      else if t.isKeyword .elifWord then
        .ok ⟨.start .default, ⟨.test ⟨.elifWord, .missing, first, links⟩, floor⟩ :: s.frames, s.done⟩
      else .ok { s with control := .opening floor ⟨.elseWord, .missing, first, links⟩ }
    else deliver bound t floor (chainNode first links) s.frames s.done

/-- The statements that follow from a state, given the tokens that are left. -/
def run (s : State) : Tokens → Except ParseError (List Node)
  | .failed e => .error ⟨.unreadable e, none, e.line⟩
  | .done line =>
    match feed bound s (Token.endOfInput line) with
    | .error e => .error e
    | .ok s => .ok s.done
  | .cons t rest =>
    match feed bound s t with
    | .error e => .error e
    | .ok s => run s rest

/-- The statements of a text, nested no deeper than `bound` unless that is zero. -/
def parse (text : String) : Except ParseError (List Node) :=
  run bound State.initial (Tokens.ofText text).significant

end Parser

end Scriptlet
