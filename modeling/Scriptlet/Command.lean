import Scriptlet.Options
import Scriptlet.Project
import Scriptlet.Repl
import Scriptlet.Watch

/-!
# Commands

What the program does with its arguments: it runs a file or a project, fetches preludes, opens an
interactive session, or watches a file. A command works on a world, reads its input, and ends with
texts and an exit code.

## Main definitions

* `Command.Output`: what a command writes, and its exit code
* `Command.runFile`, `Command.runProject`: the two ways to run scripts
* `Command.fetch`, `Command.repl`, `Command.watch`: the other commands
* `Command.run`: the command that arguments ask for
-/

namespace Scriptlet.Command

/-- What a command writes, and its exit code. -/
structure Output where
  code : Nat := 0
  out : String := ""
  err : String := ""
  deriving DecidableEq, Repr

/-- A command that fails with a message. -/
def Output.failed (code : Nat) (message : String) : Output := { code, err := message ++ "\n" }

/-- The name and version of the program. -/
def version : String := "wistful 0.1.0-dev"

def usage : String := "Usage:
  wistful [run] [flags] <file>
  wistful run [flags]            run main from wistful.yml
  wistful repl [flags]
  wistful watch [flags] <file>
  wistful fetch                  pin git preludes into wistful.lock
  wistful --version

Flags:
  -continue         keep running after a failing statement
  -max-depth N      maximum nesting depth (0 = unbounded)
  -log-level LEVEL  debug, info, warn, error
  -log-json         emit logs as JSON
  -q                do not print statement results
"

/-- What a command does: it changes the world, and ends with an output. -/
abbrev Job := StateM World Output

/-- The output with the log of the world in front of its messages. -/
def withLog (logger : Logger) (o : Output) : Job := do
  return { o with err := (← get).logText logger ++ o.err }

/-- Adds entries to the log. -/
def addLog (entries : List Log.Entry) : StateM World Unit :=
  modify fun w => { w with log := w.log ++ entries }

/-- Why a file cannot be run. -/
inductive StartError where
  | project (error : ProjectError)
  | loadPrelude (error : SourceError)
  | loadProgram (error : SourceError)

def StartError.message : StartError → String
  | project e => e.message
  | loadPrelude e => "failed to load prelude: " ++ e.message
  | loadProgram e => "failed to load program: " ++ e.message

/-- The preludes of a manifest, if there is one, and then the script in a file. -/
def sources (m : Option Manifest) (entry : String) : Task StartError (List Source) := do
  let preludes ← match m with
    | none => pure []
    | some m =>
      let project ← Task.orFail (Project.ofManifest (← get) m) .project
      project.preludes.adapt .loadPrelude
  let source ← Task.orFail (Source.read (← get) entry) .loadProgram
  return preludes ++ [source]

/-- Runs scripts until one fails. The results of the last one are shown, unless `quiet`. -/
def runSources (cfg : Session.Config) (quiet : Bool) :
    List Source → Evaluation.State → Output × List Log.Entry
  | [], _ => ({}, [])
  | source :: rest, s =>
    let r := Session.run cfg source s
    let out := if rest.isEmpty && !quiet then r.report.results else ""
    match r.error with
    | some e => ({ code := 1, out, err := e.report r.report e.message }, r.log)
    | none =>
      let (o, log) := runSources cfg quiet rest r.state
      ({ o with out := out ++ o.out }, r.log ++ log)

/-- Runs a file after the preludes of a manifest, if there is one. -/
def runFile (passes : Nat) (o : Options) (m : Option Manifest) (entry : String) : Job := do
  match o.logger with
  | .error message => return .failed 2 message
  | .ok logger =>
    match ← (sources m entry).run with
    | .error e => withLog logger (.failed 1 e.message)
    | .ok sources =>
      let (output, log) := runSources (o.config passes) o.quiet sources {}
      addLog log
      withLog logger output

/-- What is written about a project that failed. -/
def failureReport (reports : List Session.Report) (f : Project.Failure) : String :=
  match f.runError?, reports.getLast? with
  | some e, some r => e.report r f.message
  | _, _ => f.message ++ "\n"

/-- Runs the preludes and the main script of a manifest. -/
def runProject (passes : Nat) (o : Options) (m : Manifest) : Job := do
  match o.logger with
  | .error message => return .failed 2 message
  | .ok logger =>
    match Project.ofManifest (← get) m with
    | .error e => withLog logger (.failed 1 e.message)
    | .ok project =>
      let r ← project.run (o.config passes)
      addLog r.log
      let isComplete := r.reports.length = m.preludes.length + 1
      let out := if isComplete ∧ !o.quiet then (r.reports.getLast?.map (·.results)).getD "" else ""
      match r.failure with
      | none => withLog logger { out }
      | some f => withLog logger { code := 1, out, err := failureReport r.reports f }

/-- The arguments in a message about those that are too many. -/
def unexpected (arguments : List String) : Output :=
  .failed 2 ("unexpected arguments: " ++ " ".intercalate arguments)

/-- Runs a file, or the project around the current directory if there is none. -/
def runEntry (passes : Nat) (arguments : List String) : Job := do
  let w ← get
  match Options.parse arguments with
  | .error e => return { code := 2, err := e.report "run" Options.flags }
  | .ok (o, []) =>
    match w.manifestAbove "." with
    | .ok m => runProject passes (o.merge m) m
    | .error .notFound =>
      return .failed 2 "wistful run requires a source file (wistful.yml not found)"
    | .error e => return .failed 1 ("failed to load manifest: " ++ e.message)
  | .ok (o, [entry]) =>
    match w.manifestAbove entry with
    | .ok m => runFile passes (o.merge m) (some m) entry
    | .error .notFound => runFile passes o none entry
    | .error e => return .failed 1 ("failed to read manifest for " ++ entry ++ ": " ++ e.message)
  | .ok (_, _ :: rest) => return unexpected rest

/-- Resolves preludes into a lockfile and writes it. -/
def fetchInto (home : String) (m : Manifest) (l : Lockfile) : Job := do
  match ← (Project.fetchAll (Cache.fetch home) m l).run with
  | .error e => return .failed 1 ("fetch failed: " ++ e.message)
  | .ok l =>
    let w ← get
    match (l.write w.files w.cwd m.lockfilePath w.now w.lockfiles).2 with
    | .error e => return .failed 1 e.message
    | .ok files =>
      set { w with files }
      return { out := "fetched " ++ toString m.gitPreludes.length ++ " git prelude(s) into " ++
        m.lockfilePath ++ "\n" }

/-- Records the commits of all preludes that come from repositories. -/
def fetchProject (m : Manifest) : Job := do
  if m.gitPreludes.isEmpty then return { out := "no git preludes to fetch\n" }
  let w ← get
  match w.home with
  | .error e => return .failed 1 e.message
  | .ok home =>
    match Project.findLockfile w m with
    | .error e => return .failed 1 e.message
    | .ok l => fetchInto home m (l.getD (Lockfile.new m.name version w.now))

/-- Fetches the preludes of the project around the current directory. -/
def fetch (arguments : List String) : Job := do
  let flag := Options.logLevelFlag "info"
  match Flag.parse [flag] [] arguments with
  | .error e => return { code := 2, err := e.report "fetch" [flag] }
  | .ok (settings, []) =>
    match Logger.ofLevel? (Options.textOf settings flag) false with
    | .error message => return .failed 2 message
    | .ok logger =>
      let w ← get
      match w.manifestAbove "." with
      | .error e => return .failed 1 ("failed to load manifest: " ++ e.message)
      | .ok m => withLog logger (← fetchProject m)
  | .ok (_, rest) => return unexpected rest

/-- The history of earlier sessions. -/
def loadHistory (w : World) : History :=
  match w.home with
  | .error _ => []
  | .ok home =>
    match w.read (Path.join home "history") with
    | .ok bytes => History.ofBytes bytes.data.toList
    | .error _ => []

/-- Writes the history, if there is a place for it. -/
def saveHistory (h : History) : StateM World Unit := do
  let w ← get
  match w.home with
  | .error _ => return
  | .ok home =>
    let (made, files) := w.files.makeDirs w.cwd home
    set { w with files }
    match made with
    | .error _ => return
    | .ok () =>
      match files.write w.cwd (Path.join home "history") ⟨h.toBytes.toArray⟩ with
      | .error _ => return
      | .ok files => set { w with files }

/-- How an interactive session with some arguments runs; otherwise the output of the command. -/
def replConfig (passes : Nat) (arguments : List String) (w : World) : Except Output Repl.Config :=
  match Options.parse arguments with
  | .error e => .error { code := 2, err := e.report "repl" Options.flags }
  | .ok (_, a :: rest) => .error (unexpected (a :: rest))
  | .ok (o, []) =>
    match o.logger with
    | .error message => .error (.failed 2 message)
    | .ok logger =>
      let cfg := { o with continueOnError := true }.config passes
      .ok { toConfig := cfg, logger, logTime := w.logTime }

/-- An interactive session on an input. -/
def repl (passes : Nat) (arguments : List String) (input : List UInt8) : Job := do
  let w ← get
  match replConfig passes arguments w with
  | .error o => return o
  | .ok cfg =>
    let lines := (Repl.pieces input).map Repl.Piece.bytes
    let (console, written) := Repl.run cfg { history := loadHistory w } lines
    saveHistory console.history
    return { out := Repl.banner ++ written.out, err := written.err }

/-- What a watch runs: the path of the file, and the same as it was given. -/
structure Watched where
  options : Options
  manifest : Option Manifest
  entry : String
  given : String

/-- What a command is to watch; otherwise the output of the command. -/
def watched (arguments : List String) (w : World) : Except Output Watched :=
  match Options.parse arguments with
  | .error e => .error { code := 2, err := e.report "watch" Options.flags }
  | .ok (o, [given]) =>
    let entry := Path.absolute w.cwd given
    let dir := Path.dir entry
    let found (o : Options) (m : Option Manifest) : Except Output Watched :=
      match w.files.find w.cwd dir with
      | .entry .. => .ok ⟨o, m, entry, given⟩
      | .vacant _ =>
        .error (.failed 1 ("failed to watch " ++ dir ++ ": " ++ FileError.Cause.notExist.text))
      | .blocked cause => .error (.failed 1 ("failed to watch " ++ dir ++ ": " ++ cause.text))
    match w.manifestAbove entry with
    | .ok m => found (o.merge m) (some m)
    | .error .notFound => found o none
    | .error e =>
      .error (.failed 1 ("failed to read manifest for " ++ given ++ ": " ++ e.message))
  | .ok _ => .error (.failed 2 "wistful watch requires exactly one source file")

/-- Runs a watched file once; how that ends does not matter. -/
def rerun (passes : Nat) (t : Watched) : Job := do
  modify fun w => { w with log := [] }
  let o ← runFile passes t.options t.manifest t.entry
  return { o with code := 0, err := "--- running " ++ t.given ++ "\n" ++ o.err }

/-- Runs a file and watches it; without a change the file is run once. -/
def watch (passes : Nat) (arguments : List String) : Job := do
  match watched arguments (← get) with
  | .error o => return o
  | .ok t => rerun passes t

/-- The command that arguments ask for. -/
def run (passes : Nat) (arguments : List String) (input : List UInt8) : Job := do
  modify fun w => { w with log := [] }
  match arguments with
  | [] => return { code := 2, err := usage }
  | name :: rest =>
    if ["--help", "-h", "help"].contains name then return { out := usage }
    else if ["--version", "-V", "version"].contains name then return { out := version ++ "\n" }
    else if name = "run" then runEntry passes rest
    else if name = "repl" then repl passes rest input
    else if name = "watch" then watch passes rest
    else if name = "fetch" then fetch rest
    else runEntry passes arguments

end Scriptlet.Command
