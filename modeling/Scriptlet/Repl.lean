import Scriptlet.Repl.History
import Scriptlet.Session
import Scriptlet.Text.Case

/-!
# Interactive sessions

Lines are collected into chunks: a chunk ends as soon as it is a command or no longer parses as
incomplete. Commands start with a colon. Every other chunk is run as a source of its own, on the
variables of the ones before.

## Main definitions

* `Repl.handle`: what a chunk does
* `Repl.Reader`, `Repl.Reader.feed`: lines that are collected into chunks
* `Repl.step`, `Repl.run`: a session, line by line and as a whole
-/

namespace Scriptlet

namespace Session

/-- The values of the statements that succeeded, one per line; some have none to show. -/
def Report.results (r : Report) : String :=
  String.join <| r.statements.map fun s =>
    match s.outcome with
    | .ok .empty | .ok .absent | .error _ => ""
    | .ok v => v.format ++ "\n"

/-- The errors of the statements that failed, one per line. -/
def Report.errors (r : Report) : String :=
  String.join <| r.statements.map fun s =>
    match s.outcome with
    | .ok _ => ""
    | .error e => r.source ++ ": " ++ e.message ++ "\n"

end Session

/-- Whether statements failed and the others were run nevertheless. -/
def RunError.isPartial : RunError → Bool
  | .statements .. => true
  | _ => false

/-- What is written about a source that failed. -/
def RunError.report (e : RunError) (r : Session.Report) (message : String) : String :=
  (if e.isPartial then r.errors else "") ++ message ++ "\n"

namespace Repl

/-- The variables of a session, and how many chunks were run. -/
structure State where
  evaluation : Evaluation.State := {}
  chunks : Nat := 0

/-- What a chunk does. -/
structure Reply where
  state : State
  quit : Bool := false
  out : String := ""
  err : String := ""
  log : List Log.Entry := []

/-- Whether a chunk is a command. -/
def isCommand (code : String) : Bool := (Text.trim code).toList.head? = some ':'

/-- The variables and their values, one per line. -/
def listing (env : Environment) : String :=
  String.join (env.bindings.map fun (x, v) => x ++ " = " ++ v.format ++ "\n")

/-- What a command does. -/
def command (s : State) (name : String) : Reply :=
  if name = ":quit" ∨ name = ":q" then { state := s, quit := true }
  else if name = ":vars" then { state := s, out := listing s.evaluation.env }
  else { state := s, out := "unknown command. Type :vars or :quit.\n" }

/-- What a chunk does: nothing if it is blank. -/
def handle (cfg : Session.Config) (s : State) (code : String) : Reply :=
  let trimmed := Text.trim code
  if trimmed = "" then { state := s }
  else if isCommand code then command s (Text.lower trimmed)
  else
    let n := s.chunks + 1
    let r := Session.run cfg ⟨"<repl:" ++ toString n ++ ">", code⟩ s.evaluation
    { state := ⟨r.state, n⟩
      out := r.report.results
      err := (r.error.map fun e => e.report r.report e.message).getD ""
      log := r.log }

/-- Whether a chunk needs more lines. -/
def isIncomplete (maxDepth : Int) (code : String) : Bool :=
  if isCommand code then false
  else match Parser.parse maxDepth.toNat code with
    | .ok _ => false
    | .error e => e.incomplete

/-- The lines of a chunk that is not complete, joined by line feeds. -/
structure Reader where
  pending : List UInt8 := []
  deriving DecidableEq, Repr

/-- What is shown before a line is read. -/
def Reader.prompt (r : Reader) : String :=
  if r.pending.isEmpty then "wistful> " else "    ...> "

/-- One more line: either the chunk that it completes, or a chunk that needs more lines. -/
def Reader.feed (maxDepth : Int) (r : Reader) (line : List UInt8) : Option (List UInt8) × Reader :=
  let chunk := if r.pending.isEmpty then line else r.pending ++ 10 :: line
  if isIncomplete maxDepth (String.ofList (Text.decode chunk)) then (none, ⟨chunk⟩)
  else (some chunk, {})

/-- The chunks of some lines, and the lines that are left over. -/
def Reader.chunks (maxDepth : Int) (r : Reader) : List (List UInt8) → List (List UInt8) × Reader
  | [] => ([], r)
  | line :: lines =>
    match r.feed maxDepth line with
    | (none, r) => chunks maxDepth r lines
    | (some chunk, r) =>
      let (rest, r) := chunks maxDepth r lines
      (chunk :: rest, r)

/-- A session that reads lines. -/
structure Console where
  reader : Reader := {}
  state : State := {}
  history : History := []
  quit : Bool := false

/-- What is written for one line. -/
structure Written where
  out : String := ""
  err : String := ""

/-- How a session runs and logs. -/
structure Config extends Session.Config where
  logger : Logger
  logTime : String := ""

/-- The entry of the history for a chunk, which is one line. -/
def historyEntry (chunk : List UInt8) : List UInt8 := chunk.map fun b => if b = 10 then 32 else b

/-- Reads a line, and handles the chunk that it completes. -/
def step (cfg : Config) (c : Console) (line : List UInt8) : Console × Written :=
  match c.reader.feed cfg.maxDepth line with
  | (none, reader) => ({ c with reader }, {})
  | (some chunk, reader) =>
    let code := String.ofList (Text.decode chunk)
    let history :=
      if Text.trim code = "" then c.history else c.history.add (historyEntry chunk)
    let r := handle cfg.toConfig c.state code
    ({ reader, state := r.state, history, quit := r.quit },
      ⟨r.out, cfg.logger.write cfg.logTime r.log ++ r.err⟩)

/-- Reads lines until the session is quit, with a prompt before each and before the end. -/
def run (cfg : Config) (c : Console) : List (List UInt8) → Console × Written
  | [] => (c, ⟨c.reader.prompt ++ "\n", ""⟩)
  | line :: lines =>
    let (c', w) := step cfg c line
    if c'.quit then (c', ⟨c.reader.prompt ++ w.out, w.err⟩)
    else
      let (final, rest) := run cfg c' lines
      (final, ⟨c.reader.prompt ++ w.out ++ rest.out, w.err ++ rest.err⟩)

/-- What a session starts with. -/
def banner : String := "wistful REPL. :vars lists bindings, :quit exits.\n"

end Repl

end Scriptlet
