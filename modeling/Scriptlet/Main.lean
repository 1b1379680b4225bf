import Scriptlet.Command.Inputs
import Std.Time

/-!
# The program

Everything here is input and output: the files that a command may look at are read into a world, the
command is run on it, and what has changed is written back. A session reads its lines one by one, and
a watch looks at its file again and again. Repositories are not copied; every copy fails.
-/

namespace Scriptlet.Program

/-- The passes that a loop may make, which is more than it ever will. -/
def passes : Nat := 1 <<< 62

/-- The tree with what is at a path and on the way to it. -/
def look (cwd : String) (files : FileTree) (path : String) : IO FileTree := do
  let root ← IO.currentDir
  let mut files := files
  for step in FileTree.steps path do
    let place := Path.cleanSegments (Path.absolute cwd step)
    let here := root / step
    if ← here.isDir then files := files.putDirs place
    else if ← here.pathExists then
      files := files.put place (.file (← IO.FS.readBinFile here))
  return files

/-- The world as a command with these arguments sees it. -/
def world (arguments : List String) : IO World := do
  let time ← Std.Time.DateTime.now
  let utc := Std.Time.DateTime.ofTimestamp time.toTimestamp Std.Time.TimeZone.ZoneRules.UTC
  let mut w : World := {
    cwd := toString (← IO.currentDir)
    userHome := (← IO.getEnv "HOME").getD ""
    givenHome := (← IO.getEnv "WISTFUL_HOME").getD ""
    now := utc.format "uuuu-MM-dd'T'HH:mm:ss'Z'"
    logTime := time.format "uuuu-MM-dd'T'HH:mm:ss.SSSXXX" }
  -- Manifests name lockfiles, and lockfiles name files in the cache.
  for _ in [0:3] do
    for path in Command.inputs w arguments do
      w := { w with files := ← look w.cwd w.files path }
  return w

/-- Writes the files that have changed. -/
def save (old new : FileTree) : IO Unit := do
  for (place, entry) in old.changesFrom new do
    let path := Path.ofSegments true place
    match entry with
    | .directory => IO.FS.createDirAll path
    | .file bytes => IO.FS.writeBinFile path bytes

/-- Writes the texts of an output, and returns its exit code. -/
def finish (o : Command.Output) : IO UInt32 := do
  let out ← IO.getStdout
  out.putStr o.out
  out.flush
  let err ← IO.getStderr
  err.putStr o.err
  err.flush
  return UInt32.ofNat o.code

/-- Runs a job on a world. -/
def runJob (w : World) (job : Command.Job) : IO UInt32 := do
  let (o, w') := job.run w
  let code ← finish o
  save w.files w'.files
  return code

/-- Reads lines until the session is quit or the input ends. -/
partial def readLines (cfg : Repl.Config) (c : Repl.Console) : IO Repl.Console := do
  discard <| finish { out := c.reader.prompt }
  let line ← (← IO.getStdin).getLine
  if line.isEmpty then
    discard <| finish { out := "\n" }
    return c
  let mut c := c
  for piece in Repl.pieces line.toUTF8.data.toList do
    unless c.quit do
      let (c', written) := Repl.step cfg c piece.bytes
      discard <| finish { out := written.out, err := written.err }
      c := c'
  if c.quit then return c
  readLines cfg c

/-- An interactive session. -/
def repl (arguments : List String) : IO UInt32 := do
  let w ← world []
  match Command.replConfig passes arguments w with
  | .error o => finish o
  | .ok cfg =>
    discard <| finish { out := Repl.banner }
    let c ← readLines cfg { history := Command.loadHistory w }
    runJob w do
      Command.saveHistory c.history
      return {}

/-- The content of a file, if it can be read. -/
def content (path : String) : IO (Option ByteArray) := do
  try return some (← IO.FS.readBinFile path)
  catch _ => return none

/-- Looks at a file again and again, and runs it after it has changed. -/
partial def watchLoop (arguments : List String) (t : Command.Watched) (s : Watch.State)
    (seen : Option ByteArray) : IO Unit := do
  IO.sleep 100
  let now ← content t.entry
  let events : List Watch.Event :=
    if now == seen then [.expire, .tick] else [.change t.entry [.write]]
  let s' := Watch.run s events
  if s'.reruns != s.reruns then
    discard <| runJob (← world arguments) (Command.rerun passes t)
  watchLoop arguments t s' now

/-- Runs a file whenever it has changed. -/
def watch (arguments : List String) : IO UInt32 := do
  let w ← world arguments
  match Command.watched arguments w with
  | .error o => finish o
  | .ok t =>
    discard <| runJob w (Command.rerun passes t)
    watchLoop arguments t { target := t.entry } (← content t.entry)
    return 0

end Scriptlet.Program

open Scriptlet in
/-- The program; sessions and watches go on until they are ended. -/
def main (arguments : List String) : IO UInt32 := do
  match arguments with
  | "repl" :: rest => Program.repl rest
  | "watch" :: rest => Program.watch rest
  | _ => Program.runJob (← Program.world arguments) (Command.run Program.passes arguments [])
