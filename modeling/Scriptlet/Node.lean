import Scriptlet.Token

/-!
# Program trees

A program is a list of nodes, one for each statement. A tree can also be written down by hand, so it
may have holes: `Node.missing` stands wherever a node is expected and none is there. In a branch
without a condition and in a loop without one the hole is part of the language.

## Main definitions

* `Node`: expressions and statements
* `Chain`: what follows the first branch of a conditional
* `Node.typeName`: the name of a node's type in reports
-/

namespace Scriptlet

mutual

/-- Expressions and statements. -/
inductive Node where
  /-- No node where one is expected. -/
  | missing
  | number (value : Float)
  /-- Unary minus. -/
  | negative (operand : Node)
  /-- A quoted text or a reserved word. -/
  | literal (text : String) (keyword : Keyword)
  | identifier (name : String)
  | binary (operator : Token.Kind) (left right : Node)
  | assignment (target : Option String) (value : Node)
  /-- An equality test. -/
  | condition (left right : Node)
  | ifElse (test : Node) (body : List Node) (rest : Chain)
  /-- A chain that stands alone; without a test it is a plain `else`. -/
  | elseLink (test : Node) (body : List Node) (rest : Chain)
  | whileLoop (test : Node) (body : List Node)
  | endOfInput (text : String)

/-- The `elif` and `else` branches after another branch; a branch without a test is an `else`. -/
inductive Chain where
  | done
  | link (test : Node) (body : List Node) (rest : Chain)

end

instance : Inhabited Node := ⟨.missing⟩

instance : Inhabited Chain := ⟨.done⟩

namespace Node

def isMissing : Node → Bool
  | missing => true
  | _ => false

/-- The name of a node's type; a hole has none. -/
def typeName : Node → String
  | missing => ""
  | number _ => "NumberExpression"
  | negative _ => "NegativeNumberExpression"
  | literal .. => "LiteralExpression"
  | identifier _ => "IdentifierExpression"
  | binary .. => "BinaryExpression"
  | assignment .. => "AssignmentExpression"
  | condition .. => "ConditionExpression"
  | ifElse .. => "IfExpression"
  | elseLink .. => "ElseExpression"
  | whileLoop .. => "WhileExpression"
  | endOfInput _ => "EOF"

@[simp] theorem isMissing_iff {n : Node} : n.isMissing ↔ n = missing := by
  cases n <;> simp [isMissing]

end Node

/-- The chain of the given branches. -/
def Chain.ofLinks : List (Node × List Node) → Chain
  | [] => .done
  | (test, body) :: links => .link test body (ofLinks links)

end Scriptlet
