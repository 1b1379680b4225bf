import Scriptlet.Text.Quoted
import Scriptlet.Value

/-!
# Environments

The variables of a program, in one flat name space. Bindings are kept in increasing order of their
names, which is the order in which they are listed.

## Main definitions

* `Environment.get?`, `Environment.define`: reading a variable and binding one
* `Environment.names`: the bound names, in increasing order
-/

namespace Scriptlet

/-- A value that no variable can hold was to be bound. -/
structure NotStorable where
  name : String
  value : Value
  deriving Repr

def NotStorable.message (e : NotStorable) : String :=
  "define " ++ Text.quote e.name ++ ": value cannot be stored in a variable (" ++
    e.value.kindName ++ ")"

/-- Bindings in increasing order of their names. -/
structure Environment where
  bindings : List (String × Value)
  deriving DecidableEq, Repr, Inhabited

namespace Environment

def empty : Environment := ⟨[]⟩

def get? (env : Environment) (name : String) : Option Value :=
  env.bindings.lookup name

/-- Puts a binding into its place, where it replaces an older one of the same name. -/
def insert (name : String) (value : Value) : List (String × Value) → List (String × Value)
  | [] => [(name, value)]
  | (x, v) :: rest =>
    if name = x then (name, value) :: rest
    else if name < x then (name, value) :: (x, v) :: rest
    else (x, v) :: insert name value rest

/-- The environment with `name` bound to `value`, provided that a variable can hold it. -/
def define (env : Environment) (name : String) (value : Value) : Except NotStorable Environment :=
  if value.isStorable then .ok ⟨insert name value env.bindings⟩ else .error ⟨name, value⟩

def names (env : Environment) : List String := env.bindings.map (·.1)

def size (env : Environment) : Nat := env.bindings.length

end Environment

end Scriptlet
