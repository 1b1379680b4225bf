import Scriptlet.Cache

/-!
# Projects

A project is a manifest with its lockfile and the directory of its cache. Its preludes are loaded from
files, or from the cache at the commit that the lockfile records; a prelude that is not recorded is
resolved on the spot. Preludes run before the main script, on the same variables, and a prelude that
fails ends the run.

## Main definitions

* `Source.read`: the script in a file
* `Project.ofManifest`: the project of a manifest
* `Project.load`, `Project.preludes`, `Project.mainSource`: the scripts of a project
* `Project.run`: runs a project
* `Project.fetchAll`: resolves all preludes into a lockfile
-/

namespace Scriptlet

/-- Why a script cannot be loaded. -/
inductive SourceError where
  | file (path : String) (error : FileError)
  | noCache (p : Prelude)
  /-- The commit that is recorded for a prelude is not available. -/
  | locked (p : Prelude) (error : CacheError)
  | fetch (error : CacheError)

def SourceError.message : SourceError → String
  | file path e => "read " ++ path ++ ": " ++ e.message
  | noCache p => "prelude " ++ p.describe ++ ": git fetcher unavailable"
  | locked p e => "prelude " ++ p.describe ++ ": " ++ e.message
  | fetch e => e.message

/-- The script in a file. -/
def Source.read (w : World) (path : String) : Except SourceError Source :=
  match w.read path with
  | .ok bytes => .ok ⟨path, Text.ofBytes bytes⟩
  | .error e => .error (.file path e)

/-- A manifest, its lockfile if there is one, and the directory of the cache if one is needed. -/
structure Project where
  manifest : Manifest
  lockfile : Option Lockfile := none
  home : Option String := none

/-- Why a manifest makes no project. -/
inductive ProjectError where
  | lockfile (path : String) (error : LockfileError)
  | otherProject (locked given : String)
  | home (error : World.NoHome)

def ProjectError.message : ProjectError → String
  | lockfile path e => "failed to read lockfile " ++ path ++ ": " ++ e.message
  | otherProject locked given =>
    "lockfile project " ++ Text.quote locked ++ " does not match manifest name " ++ Text.quote given
  | home e => e.message

namespace Project

/-- The lockfile beside a manifest, if there is one; it has to be for the same project. -/
def findLockfile (w : World) (m : Manifest) : Except ProjectError (Option Lockfile) :=
  match w.lockfile m.lockfilePath with
  | .ok l => if l.project = m.name then .ok (some l) else .error (.otherProject l.project m.name)
  | .error e => if e.isNotExist then .ok none else .error (.lockfile m.lockfilePath e)

/-- The project of a manifest. -/
def ofManifest (w : World) (m : Manifest) : Except ProjectError Project := do
  let lockfile ← findLockfile w m
  if m.gitPreludes.isEmpty then return { manifest := m, lockfile }
  let home ← w.home.mapError .home
  return { manifest := m, lockfile, home := some home }

/-- The entry of the lockfile for a prelude. -/
def locked? (project : Project) (p : Prelude) : Option LockedSource := do
  (← project.lockfile).find? p

/-- The script of a prelude in the cache, under the name that describes the prelude. -/
def readCached (p : Prelude) (path : String) : Task SourceError Source := do
  let source ← Task.orFail (Source.read (← get) path) id
  return { source with name := p.describe }

/-- The script of a prelude. -/
def load (project : Project) (p : Prelude) : Task SourceError Source := do
  if !p.isGit then
    let path := project.manifest.resolve p.path
    Task.report .debug "loading prelude" [("path", .text path)]
    Task.orFail (Source.read (← get) path) id
  else match project.home with
    | none => throw (.noCache p)
    | some home =>
      match project.locked? p with
      | some s =>
        let path ← (Cache.checkout home s).adapt (.locked p)
        readCached p path
      | none =>
        Task.report .warn
          "prelude not in lockfile, resolving live; run `wistful fetch` to pin it"
          [("prelude", .text p.describe), ("lockfile", .text Manifest.lockfileName)]
        let s ← (Cache.fetch home p).adapt .fetch
        readCached p (Cache.sourcePath home s)

/-- The scripts of the preludes, in the order of the manifest. -/
def preludes (project : Project) : Task SourceError (List Source) :=
  project.manifest.preludes.mapM project.load

/-- The main script. -/
def mainSource (project : Project) : Task SourceError Source := do
  Task.orFail (Source.read (← get) project.manifest.mainPath) id

/-- Why a project failed. -/
inductive Failure where
  | load (error : SourceError)
  | inPrelude (error : RunError)
  | inMain (error : RunError)

def Failure.message : Failure → String
  | load e => e.message
  | inPrelude e => "prelude: " ++ e.message
  | inMain e => e.message

/-- The error of the script that failed. -/
def Failure.runError? : Failure → Option RunError
  | load _ => none
  | inPrelude e | inMain e => some e

/-- What running a project gives: a report for each script that was run. -/
structure Run where
  reports : List Session.Report := []
  failure : Option Failure := none
  state : Evaluation.State := {}
  log : List Log.Entry := []

/-- Runs preludes and then the main script, until one fails. -/
def runScripts (cfg : Session.Config) (main : Source) : List Source → Evaluation.State → Run
  | [], s =>
    let r := Session.run cfg main s
    ⟨[r.report], r.error.map .inMain, r.state, r.log⟩
  | p :: rest, s =>
    let r := Session.run cfg p s
    let log := ⟨.info, "running prelude", [("source", .text p.name)]⟩ :: r.log
    match r.error with
    | some e => ⟨[r.report], some (.inPrelude e), r.state, log⟩
    | none =>
      let others := runScripts cfg main rest r.state
      { others with reports := r.report :: others.reports, log := log ++ others.log }

/-- Loads all scripts of a project, and then runs them. -/
def run (cfg : Session.Config) (project : Project) : StateM World Run := do
  match ← (do return (← project.preludes, ← project.mainSource) : Task SourceError _).run with
  | .error e => return { failure := some (.load e) }
  | .ok (preludes, main) => return runScripts cfg main preludes {}

/-- Resolves preludes one after the other and puts them into a lockfile. -/
def fetchEach (fetch : Cache.Fetcher) : List Prelude → Lockfile → Task CacheError Lockfile
  | [], l => return l
  | p :: rest, l => do
    let s ← fetch p
    fetchEach fetch rest (l.put s)

/-- Resolves all preludes that come from repositories. -/
def fetchAll (fetch : Cache.Fetcher) (m : Manifest) (l : Lockfile) : Task CacheError Lockfile :=
  fetchEach fetch m.gitPreludes l

end Project

end Scriptlet
