import Scriptlet.Node

/-!
# Trees as text

A tree written out on one line, for messages and logs. A binary operand is put in parentheses if its
operator binds less tightly than the one around it, or as tightly and stands on the right. The
statements of a block are separated by semicolons, which the language itself does not have.

## Main definitions

* `Node.format`: the text of a tree
-/

namespace Scriptlet

/-- Whether an operand of an operator that binds like `outer` needs parentheses. -/
def Node.needsParens (outer : Precedence) (right : Bool) : Node → Bool
  | .binary op _ _ => op.precedence < outer || (right && op.precedence == outer)
  | _ => false

/-- A text in parentheses, if it needs them. -/
def Node.parenthesize (needed : Bool) (text : String) : String :=
  if needed then "(" ++ text ++ ")" else text

/-- The texts of a block's statements between braces. -/
def Node.formatBlock (statements : List String) : String :=
  if statements.isEmpty then " \x7b \x7d" else " \x7b " ++ "; ".intercalate statements ++ " \x7d"

mutual

/-- The text of a tree. -/
@[simp] def Node.format : Node → String
  | .missing => "<nil>"
  | .number value => Number.text value
  | .negative operand =>
    "-" ++ Node.parenthesize (match operand with | .binary .. => true | _ => false) operand.format
  | .literal text keyword => if keyword = .none then Text.quote text else text
  | .identifier name => name
  | .binary op left right =>
    Node.parenthesize (left.needsParens op.precedence false) left.format ++ " " ++ op.name ++ " " ++
      Node.parenthesize (right.needsParens op.precedence true) right.format
  | .assignment target value => target.getD "<nil>" ++ " = " ++ value.format
  | .condition left right => left.format ++ " == " ++ right.format
  | .ifElse test body rest =>
    "if " ++ test.format ++ Node.formatBlock (Node.formatAll body) ++ rest.format
  | .elseLink test body rest =>
    (match test with | .missing => "else" | _ => "elif " ++ test.format) ++
      Node.formatBlock (Node.formatAll body) ++ rest.format
  | .whileLoop test body =>
    "while" ++ (match test with | .missing => "" | _ => " " ++ test.format) ++
      Node.formatBlock (Node.formatAll body)
  | .endOfInput _ => "EOF"
termination_by structural n => n

/-- The texts of several trees. -/
@[simp] def Node.formatAll : List Node → List String
  | [] => []
  | n :: ns => n.format :: Node.formatAll ns
termination_by structural ns => ns

/-- The text of the branches after another one. -/
@[simp] def Chain.format : Chain → String
  | .done => ""
  | .link test body rest =>
    " " ++ (match test with | .missing => "else" | _ => "elif " ++ test.format) ++
      Node.formatBlock (Node.formatAll body) ++ rest.format
termination_by structural c => c

end

end Scriptlet
