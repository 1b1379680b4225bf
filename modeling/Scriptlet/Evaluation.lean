import Scriptlet.Node.Printer
import Scriptlet.Number.Power
import Scriptlet.Value.Environment

/-!
# Evaluation

What trees do. A node acts on the state, which is the variables and the warnings given so far, and
ends with a value or an error; either way it leaves a state. A loop need not end, so evaluation is
given a number of passes that no loop may exceed, and an evaluation that would need more is unfinished.

A node is used in three ways: for its value, as an operand of arithmetic, and as the test of a branch
or loop. `Meaning` holds the three actions of a node side by side.

## Main definitions

* `EvalError`: why an evaluation failed
* `Evaluation.Effect`: what acts on the state
* `Evaluation.meaning`: the three actions of a node
* `Evaluation.evaluate`, `Evaluation.program`: a statement, and statements up to the first failure
-/

namespace Scriptlet

/-- The classes of evaluation errors. -/
inductive EvalError.Class where
  | undefinedVariable
  | unassignableValue
  | unsupported
  | typeMismatch
  deriving DecidableEq, Repr

def EvalError.Class.name : EvalError.Class → String
  | undefinedVariable => "undefined variable"
  | unassignableValue => "unassignable value"
  | unsupported => "could not evaluate"
  | typeMismatch => "type mismatch"

/-- Why an evaluation failed, or what it warns of. -/
inductive EvalError where
  /-- A variable is read that was never bound. -/
  | undefined (name : String)
  /-- A variable in arithmetic holds no number. -/
  | notNumber (name : String) (value : Value)
  /-- Another operand in arithmetic is no number. -/
  | badOperand (node : Node) (value : Value)
  /-- A test is no boolean. -/
  | badTest (node : Node) (value : Value)
  /-- The value of an assignment cannot be stored. -/
  | unassignable (node : Node) (name : String) (value : Value)
  /-- The variables refuse a value. -/
  | refused (node : Node) (error : NotStorable)
  /-- An assignment names no variable. -/
  | noTarget (node : Node)
  /-- There is no such operator. -/
  | badOperator (node : Node) (operator : Token.Kind)
  /-- The node cannot be evaluated. -/
  | badNode (node : Node)
  /-- There is no node. -/
  | noNode

namespace EvalError

def cause : EvalError → Class
  | undefined _ => .undefinedVariable
  | unassignable .. | refused .. => .unassignableValue
  | notNumber .. | badOperand .. | badTest .. => .typeMismatch
  | noTarget _ | badOperator .. | badNode _ | noNode => .unsupported

/-- The node to blame; without one it is `Node.missing`. -/
def node : EvalError → Node
  | undefined name | notNumber name _ => .identifier name
  | badOperand n _ | badTest n _ | unassignable n .. | refused n _ | noTarget n | badOperator n _
  | badNode n => n
  | noNode => .missing

def detail : EvalError → String
  | undefined name => Text.quote name
  | notNumber name v => Text.quote name ++ " holds a " ++ v.kindName ++ ", not a number"
  | badOperand _ v => v.kindName ++ " operand in arithmetic"
  | badTest _ v => "condition evaluated to a " ++ v.kindName
  | unassignable _ name v => Text.quote name ++ " cannot hold a " ++ v.kindName ++ " result"
  | refused _ e => e.message
  | noTarget _ => "assignment without identifier"
  | badOperator _ op => "operator " ++ op.name
  | badNode n => n.typeName
  | noNode => "nil node"

/-- The message for a class of errors and a detail, which may be empty. -/
def render (cause : Class) (detail : String) : String :=
  if detail = "" then cause.name else cause.name ++ ": " ++ detail

def message (e : EvalError) : String := render e.cause e.detail

end EvalError

namespace Evaluation

/-- The variables, and the warnings given so far, oldest first. -/
structure State where
  env : Environment := .empty
  warnings : List EvalError := []

/-- How an action ends. -/
inductive Outcome (α : Type) where
  | done (result : α) (state : State)
  | failed (error : EvalError) (state : State)
  /-- A loop used up its passes. -/
  | unfinished

/-- What acts on the state. -/
def Effect (α : Type) : Type := State → Outcome α

namespace Effect

variable {α β : Type}

protected def pure (a : α) : Effect α := fun s => .done a s

protected def bind (x : Effect α) (f : α → Effect β) : Effect β := fun s =>
  match x s with
  | .done a s => f a s
  | .failed e s => .failed e s
  | .unfinished => .unfinished

instance : Monad Effect where
  pure := Effect.pure
  bind := Effect.bind

/-- Fails with `e` and leaves the state alone. -/
def fail (e : EvalError) : Effect α := fun s => .failed e s

/-- Adds a warning. -/
def warn (e : EvalError) : Effect Unit := fun s =>
  .done () { s with warnings := s.warnings ++ [e] }

/-- The value of a variable. -/
def lookup (name : String) : Effect Value := fun s =>
  match s.env.get? name with
  | some v => .done v s
  | none => .failed (.undefined name) s

/-- Repeats `body` while `test` holds, at most `passes` times. -/
def loop (test : Effect Bool) (body : Effect Unit) : (passes : Nat) → Effect Unit
  | 0 => fun _ => .unfinished
  | passes + 1 => fun s =>
    match test s with
    | .done false s => .done () s
    | .done true s =>
      match body s with
      | .done () s => loop test body passes s
      | .failed e s => .failed e s
      | .unfinished => .unfinished
    | .failed e s => .failed e s
    | .unfinished => .unfinished

end Effect

open Effect

/-- What a node does as a statement, as an operand of arithmetic, and as a test. -/
structure Meaning where
  value : Effect Value
  number : Effect Float
  test : Effect Bool

namespace Meaning

/-- The meaning of `node` if all its uses go through its value. -/
def ofValue (node : Node) (value : Effect Value) : Meaning where
  value := value
  number := do
    match ← value with
    | .number f => return f
    | v => fail (.badOperand node v)
  test := do
    match ← value with
    | .boolean b => return b
    | v => fail (.badTest node v)

/-- The meaning of an arithmetic node. -/
def ofNumber (node : Node) (number : Effect Float) : Meaning :=
  { ofValue node (do return .number (← number)) with number }

/-- The meaning of an equality test. -/
def ofTest (node : Node) (test : Effect Bool) : Meaning :=
  { ofValue node (do return .boolean (← test)) with test }

/-- The meaning of a statement that has no value of its own. -/
def ofStatement (node : Node) (statement : Effect Unit) : Meaning :=
  ofValue node (do statement; return .empty)

end Meaning

/-- The value of a literal: a boolean for its two words, and otherwise its text. -/
def literalValue (text : String) : Keyword → Value
  | .true => .boolean true
  | .false => .boolean false
  | _ => .literal text

/-- Arithmetic follows IEEE 754, so that a division by zero has a result. -/
def arithmetic (node : Node) (op : Token.Kind) (a b : Float) : Effect Float :=
  match op with
  | .add => pure (a + b)
  | .subtract => pure (a - b)
  | .multiply => pure (a * b)
  | .divide => pure (a / b)
  | .power => pure (Number.power a b)
  | _ => fail (.badOperator node op)

/--
Binds a variable to the value of an action. A value that cannot be stored is worth a warning and
leaves the variables alone.
-/
def assign (node : Node) (target : Option String) (value : Effect Value) : Effect Value :=
  match target with
  | none => fail (.noTarget node)
  | some name => do
    let v ← value
    if v.isStorable then
      fun s =>
        match s.env.define name v with
        | .ok env => .done (.assignment name v) { s with env }
        | .error e => .failed (.refused node e) s
    else
      warn (.unassignable node name v)
      return .empty

/-- The number that a variable holds. -/
def lookupNumber (name : String) : Effect Float := do
  match ← lookup name with
  | .number f => return f
  | v => fail (.notNumber name v)

mutual

/-- The three actions of a node, in which no loop makes more than `passes` passes. -/
def meaning (passes : Nat) : Node → Meaning
  | .missing => { Meaning.ofValue .missing (fail .noNode) with test := pure false }
  | .number v => .ofNumber (.number v) (pure v)
  | .negative e => .ofNumber (.negative e) (do return -(← (meaning passes e).number))
  | .literal text k => .ofValue (.literal text k) (pure (literalValue text k))
  | .identifier x =>
    { Meaning.ofValue (.identifier x) (lookup x) with number := lookupNumber x }
  | .binary op l r => .ofNumber (.binary op l r) do
    let a ← (meaning passes l).number
    let b ← (meaning passes r).number
    arithmetic (.binary op l r) op a b
  | .assignment target e =>
    .ofValue (.assignment target e) (assign (.assignment target e) target (meaning passes e).value)
  | .condition l r => .ofTest (.condition l r) do
    let a ← (meaning passes l).value
    let b ← (meaning passes r).value
    return a.equal b
  | .ifElse test body rest => .ofStatement (.ifElse test body rest) do
    if ← (meaning passes test).test then block passes body else branches passes rest
  | .elseLink test body rest => .ofStatement (.elseLink test body rest) <|
    if test.isMissing then block passes body
    else do if ← (meaning passes test).test then block passes body else branches passes rest
  | .whileLoop test body => .ofStatement (.whileLoop test body) <|
    if test.isMissing then pure () else loop (meaning passes test).test (block passes body) passes
  | .endOfInput text => .ofValue (.endOfInput text) (fail (.badNode (.endOfInput text)))
termination_by structural n => n

/-- The statements of a block, one after the other. -/
def block (passes : Nat) : List Node → Effect Unit
  | [] => pure ()
  | n :: ns => do
    let _ ← (meaning passes n).value
    block passes ns
termination_by structural ns => ns

/-- The first branch whose test holds or that has none; the tests after it are not made. -/
def branches (passes : Nat) : Chain → Effect Unit
  | .done => pure ()
  | .link test body rest =>
    if test.isMissing then block passes body
    else do if ← (meaning passes test).test then block passes body else branches passes rest
termination_by structural c => c

end

/-- Runs one statement. -/
def evaluate (passes : Nat) (node : Node) : Effect Value := (meaning passes node).value

/-- Runs statements in order up to the first that fails, and gives the last value. -/
def program (passes : Nat) (nodes : List Node) : Effect Value :=
  go .empty nodes
where
  go (last : Value) : List Node → Effect Value
    | [] => pure last
    | n :: ns => do
      let v ← evaluate passes n
      go v ns

end Evaluation

end Scriptlet
