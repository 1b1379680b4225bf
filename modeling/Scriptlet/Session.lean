import Scriptlet.Evaluation
import Scriptlet.Log
import Scriptlet.Node.Parser

/-!
# Sessions

Sources that are run one after the other on the same variables. A source that does not parse runs
nothing. A failing statement ends the source under the policy `stop`; under `continue` the other
statements run too, and the source fails at its end.

## Main definitions

* `Policy`, `Session.Config`: how sources are run
* `Session.Report`, `RunError`: the results of a source's statements, and why the source failed
* `Session.run`: runs one source
-/

namespace Scriptlet

/-- What happens after a failing statement. -/
inductive Policy where
  | stop
  | continue
  deriving DecidableEq, Repr

def Policy.name : Policy → String
  | stop => "stop"
  | .continue => "continue"

def Policy.ofName? : String → Option Policy
  | "stop" => some stop
  | "continue" => some .continue
  | _ => none

/-- A program text and where it comes from. -/
structure Source where
  name : String
  text : String
  deriving DecidableEq, Repr

/-- Why a source failed. -/
inductive RunError where
  | parse (source : String) (error : ParseError)
  | statement (source : String) (error : EvalError)
  | statements (source : String) (failures : Nat)
  | unfinished (source : String)

def RunError.message : RunError → String
  | parse source e => source ++ ": " ++ e.message
  | statement source e => source ++ ": " ++ e.message
  | statements source n =>
    source ++ ": " ++ toString n ++ (if n = 1 then " statement" else " statements") ++ " failed"
  | unfinished source => source ++ ": not finished"

namespace Session

structure Config where
  policy : Policy := .stop
  /-- The bound on nesting; there is none unless it is positive. -/
  maxDepth : Int := 0
  /-- The passes that a loop may make. -/
  passes : Nat

/-- A statement and what became of it. -/
structure Result where
  node : Node
  outcome : Except EvalError Value

def Result.failed (r : Result) : Bool :=
  match r.outcome with
  | .ok _ => false
  | .error _ => true

/-- The statements of a source that were run, and how many of them failed. -/
structure Report where
  source : String
  statements : List Result := []
  failures : Nat := 0

/-- The report with one more statement. -/
def Report.add (r : Report) (result : Result) : Report :=
  { r with statements := r.statements ++ [result] }

/-- The report with one more failure. -/
def Report.fail (r : Report) : Report := { r with failures := r.failures + 1 }

/-- What running a source gives: a report, the reason to call it failed, the state, and the log. -/
structure Run where
  report : Report
  error : Option RunError
  state : Evaluation.State
  log : List Log.Entry

/-- What is logged before a statement runs. -/
def evaluateEntry (n : Node) : List Log.Entry :=
  if n.isMissing then []
  else [⟨.debug, "evaluate", [("node", .text n.typeName), ("source", .text n.format)]⟩]

/-- What is logged for the warnings that were added to `old`. -/
def warningEntries (old new : List EvalError) : List Log.Entry :=
  (new.drop old.length).map fun w =>
    ⟨.warn, "statement produced no binding", [("error", .text w.message)]⟩

/-- What is logged after a statement has failed. -/
def failedEntry (source : String) (n : Node) (e : EvalError) : Log.Entry :=
  ⟨.debug, "statement failed",
    [("source", .text source), ("statement", .text n.format), ("error", .text e.message)]⟩

/--
Runs statements, and adds them to a report. The log goes to the front of what the rest of the
statements gives; the error is the one that ended the run early.
-/
def statements (cfg : Config) :
    List Node → Report → Evaluation.State →
      Report × Option RunError × Evaluation.State × List Log.Entry
  | [], r, s => (r, none, s, [])
  | n :: ns, r, s =>
    match Evaluation.evaluate cfg.passes n s with
    | .done v s' =>
      let (r, err, s'', log) := statements cfg ns (r.add ⟨n, .ok v⟩) s'
      (r, err, s'', evaluateEntry n ++ warningEntries s.warnings s'.warnings ++ log)
    | .failed e s' =>
      let r := (r.add ⟨n, .error e⟩).fail
      let log :=
        evaluateEntry n ++ warningEntries s.warnings s'.warnings ++ [failedEntry r.source n e]
      match cfg.policy with
      | .stop => (r, some (.statement r.source e), s', log)
      | .continue =>
        let (r, err, s'', rest) := statements cfg ns r s'
        (r, err, s'', log ++ rest)
    | .unfinished => (r, some (.unfinished r.source), s, evaluateEntry n)

/-- Runs one source. -/
def run (cfg : Config) (src : Source) (s : Evaluation.State) : Run :=
  match Parser.parse cfg.maxDepth.toNat src.text with
  | .error e => ⟨{ source := src.name }, some (.parse src.name e), s, []⟩
  | .ok nodes =>
    let parsed : Log.Entry :=
      ⟨.debug, "parsed source", [("source", .text src.name), ("statements", .count nodes.length)]⟩
    let (report, err, s', log) := statements cfg nodes { source := src.name } s
    let err := err.orElse fun _ =>
      if report.failures > 0 then some (.statements src.name report.failures) else none
    ⟨report, err, s', parsed :: log⟩

end Session

end Scriptlet
