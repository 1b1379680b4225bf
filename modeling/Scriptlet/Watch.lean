import Scriptlet.Files.Path

/-!
# Watching a file

A file is run again after it has changed. Changes come in bursts, so a change only starts a timer, and
a further change starts it anew; the file is run when the timer has run out. The timer, the changes and
what ends the watch may come in any order.

## Main definitions

* `Watch.Timer`: a timer that leaves one tick when it runs out
* `Watch.Event`: what can happen
* `Watch.State`, `Watch.step`: the watch, and what an event does to it
-/

namespace Scriptlet.Watch

/-- A timer; when it has run out, a tick waits to be received. -/
inductive Timer where
  | stopped
  | running
  | expired
  deriving DecidableEq, Repr

namespace Timer

/-- Stops the timer; tells whether it was running. -/
def stop : Timer → Timer × Bool
  | running => (stopped, true)
  | t => (t, false)

/-- Receives the tick if one is waiting. -/
def drain : Timer → Timer
  | expired => stopped
  | t => t

/-- Starts the timer. A tick that is waiting goes on waiting. -/
def start : Timer → Timer
  | expired => expired
  | _ => running

/-- Starts the timer anew: nothing is left of its earlier run. -/
def restart (t : Timer) : Timer :=
  match t.stop with
  | (t, true) => t.start
  | (t, false) => t.drain.start

@[simp] theorem restart_eq (t : Timer) : t.restart = running := by
  cases t <;> rfl

/-- Time has passed. -/
def expire : Timer → Timer
  | running => expired
  | t => t

end Timer

/-- What can be done to a file. -/
inductive Operation where
  | create
  | write
  | remove
  | rename
  | chmod
  deriving DecidableEq, Repr

/-- What can happen. -/
inductive Event where
  /-- Something was done to a file. -/
  | change (name : String) (operations : List Operation)
  /-- Time passes. -/
  | expire
  /-- The tick of the timer is received. -/
  | tick
  | cancel
  | eventsClosed
  | errorsClosed
  | error (message : String)
  deriving DecidableEq, Repr

/-- How a watch ends. -/
inductive Ending where
  | normal
  | failed (message : String)
  deriving DecidableEq, Repr

/-- A watch of the file `target`. -/
structure State where
  target : String
  timer : Timer := .stopped
  reruns : Nat := 0
  ending : Option Ending := none
  deriving DecidableEq, Repr

/-- Whether a change means that the content of the target may be new. -/
def isRelevant (target name : String) (operations : List Operation) : Bool :=
  Path.clean name == Path.clean target
    && operations.any fun o => o == .write || o == .create || o == .rename

/-- What an event does to a watch that has not ended. -/
def State.next (s : State) : Event → State
  | .change name operations =>
    if isRelevant s.target name operations then { s with timer := s.timer.restart } else s
  | .expire => { s with timer := s.timer.expire }
  | .tick =>
    if s.timer = .expired then { s with timer := s.timer.drain, reruns := s.reruns + 1 } else s
  | .cancel | .eventsClosed | .errorsClosed => { s with ending := some .normal }
  | .error message => { s with ending := some (.failed message) }

/-- What an event does: nothing, once the watch has ended. -/
def step (s : State) (e : Event) : State :=
  if s.ending.isSome then s else s.next e

theorem step_of_ended {s : State} (h : s.ending.isSome) (e : Event) : step s e = s := by
  simp [step, h]

/-- What some events do, one after the other. -/
def run (s : State) (events : List Event) : State := events.foldl step s

end Scriptlet.Watch
