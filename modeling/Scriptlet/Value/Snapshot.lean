import Scriptlet.Value.Environment

/-!
# Snapshots

An environment is one map in memory, which each definition changes in place. A snapshot is a map of
its own, which is filled entry by entry from the environment and belongs to whoever asked for it: it
can be written to with any value. Maps are known by their addresses, so that a write through one
address is seen through every equal one.

The entries of a map are met in no particular order, when they are copied and when their names are
listed, which are put in order afterwards.

## Main definitions

* `Environment.Visit`: an order in which entries are met
* `Environment.keys`: the names, collected in such an order and sorted
* `Heap`: the maps in memory, the address of the environment, and those of the snapshots
* `Heap.define`, `Heap.snapshot`, `Heap.write`: what can be done with them
* `Heap.run`: any sequence of operations
-/

namespace Scriptlet

namespace Environment

/-- An order in which the entries of a map are met. -/
structure Visit where
  arrange : List (String × Value) → List (String × Value)
  perm : ∀ entries, (arrange entries).Perm entries

/-- A new map with the entries of another one, which are put into it one after the other. -/
def copy (visit : Visit) (env : Environment) : Environment :=
  ⟨(visit.arrange env.bindings).foldl (fun entries e => insert e.1 e.2 entries) []⟩

/-- The names of the entries as they are met, and then in increasing order. -/
def keys (visit : Visit) (env : Environment) : List String :=
  ((visit.arrange env.bindings).map (·.1)).mergeSort fun x y => x ≤ y

end Environment

/-- The maps in memory by their addresses: one of them is the environment, some are snapshots. -/
structure Heap where
  maps : List Environment
  env : Nat
  snapshots : List Nat

namespace Heap

/-- A new environment, and nothing else. -/
def new : Heap := ⟨[.empty], 0, []⟩

/-- The map at an address. -/
def load (h : Heap) (address : Nat) : Environment := h.maps.getD address .empty

/-- The environment as it is now. -/
def environment (h : Heap) : Environment := h.load h.env

/-- Binds a variable, or reports why it cannot. -/
def define (h : Heap) (name : String) (value : Value) : Option NotStorable × Heap :=
  match h.environment.define name value with
  | .ok env => (none, { h with maps := h.maps.set h.env env })
  | .error e => (some e, h)

/-- Takes a snapshot of the environment. -/
def snapshot (h : Heap) (visit : Environment.Visit) : Heap :=
  { h with
    maps := h.maps ++ [h.environment.copy visit]
    snapshots := h.snapshots ++ [h.maps.length] }

/-- Writes into the snapshot with the given number, if there is one, whatever the value is. -/
def write (h : Heap) (number : Nat) (name : String) (value : Value) : Heap :=
  match h.snapshots[number]? with
  | none => h
  | some address =>
    { h with
      maps := h.maps.set address ⟨Environment.insert name value (h.load address).bindings⟩ }

/-- What is done with an environment and its snapshots. -/
inductive Operation where
  | define (name : String) (value : Value)
  | snapshot (visit : Environment.Visit)
  | write (number : Nat) (name : String) (value : Value)

def perform (h : Heap) : Operation → Heap
  | .define name value => (h.define name value).2
  | .snapshot visit => h.snapshot visit
  | .write number name value => h.write number name value

/-- The heap after some operations. -/
def run (h : Heap) (operations : List Operation) : Heap := operations.foldl perform h

end Heap

end Scriptlet
