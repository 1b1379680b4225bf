import Scriptlet.Number.Decimal

/-!
# Values

What a statement evaluates to. Numbers, texts and booleans can be bound to a variable; an assignment
reports the binding it made, and control flow has no value of its own.

## Main definitions

* `Value`, `Value.Kind`
* `Value.isStorable`: the values that a variable can hold
* `Value.equal`: equality as the language has it
* `Value.format`: the text of a value
-/

namespace Scriptlet

inductive Value where
  | number (value : Float)
  | literal (text : String)
  | boolean (value : Bool)
  | assignment (name : String) (value : Value)
  | empty
  /-- No value at all. -/
  | absent
  deriving DecidableEq, Repr, Inhabited

/-- The kinds of value. -/
inductive Value.Kind where
  | number
  | literal
  | boolean
  | assignment
  | empty
  deriving DecidableEq, Repr

namespace Value

def Kind.name : Kind → String
  | .number => "number"
  | .literal => "literal"
  | .boolean => "boolean"
  | .assignment => "assignment"
  | .empty => "empty"

/-- The name of the kind with a given number. -/
def Kind.nameOfCode : Int → String
  | 0 => Kind.number.name
  | 1 => Kind.literal.name
  | 2 => Kind.boolean.name
  | 3 => Kind.assignment.name
  | 4 => Kind.empty.name
  | c => "unknown_kind_" ++ toString c

/-- The kind of a value; no value has none. -/
def kind? : Value → Option Kind
  | number _ => some .number
  | literal _ => some .literal
  | boolean _ => some .boolean
  | assignment .. => some .assignment
  | empty => some .empty
  | absent => none

/-- The name of a value's kind in messages. -/
def kindName (v : Value) : String :=
  (v.kind?.map Kind.name).getD "nil"

/-- Whether a variable can hold the value. -/
def isStorable : Value → Bool
  | number _ | literal _ | boolean _ => true
  | _ => false

/--
Equality in the language: kind and payload agree, and numbers are compared as numbers, so that zero
equals minus zero and a value that holds what is no number, or nothing at all, does not equal itself.
-/
def equal : Value → Value → Bool
  | number a, number b => a == b
  | literal a, literal b => a == b
  | boolean a, boolean b => a == b
  | assignment x v, assignment y w => x == y && v.equal w
  | empty, empty => true
  | _, _ => false

/-- The text of a value. -/
def format : Value → String
  | number v => Number.text v
  | literal s => s
  | boolean b => if b then "true" else "false"
  | assignment x v => x ++ " = " ++ v.format
  | empty => ""
  | absent => "<nil>"

end Value

end Scriptlet
