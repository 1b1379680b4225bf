import Scriptlet.Session
import Scriptlet.Yaml.File

/-!
# Manifests

A project is described by a file `wistful.yml`: its name, the script to run, how to run it, and the
preludes, which are scripts that run before it. A prelude is a local file, or a file of a git
repository at one revision, tag or branch.

## Main definitions

* `Prelude`: a script that runs before the main one
* `Manifest`: the description of a project
* `Manifest.issues`: what is wrong with a description
* `Manifest.find`: the nearest manifest above a path
* `Manifest.load`: reads a manifest
-/

namespace Scriptlet

/-- A script that runs before the main one. -/
structure Prelude where
  path : String := ""
  git : String := ""
  rev : String := ""
  tag : String := ""
  branch : String := ""
  file : String := ""
  deriving DecidableEq, Repr

namespace Prelude

/-- What is wrong with a prelude. -/
inductive Issue where
  | absent
  | noOrigin
  | twoOrigins
  | pinnedPath
  | noPin
  | manyPins
  | noFile
  deriving DecidableEq, Repr

def Issue.text : Issue → String
  | absent => "entry must not be empty"
  | noOrigin => "must specify path or git"
  | twoOrigins => "path and git are mutually exclusive"
  | pinnedPath => "path preludes cannot specify rev, tag, branch or file"
  | noPin => "git preludes require rev, tag, or branch"
  | manyPins => "git preludes accept only one of rev, tag, branch"
  | noFile => "git preludes require file"

def isGit (p : Prelude) : Bool := p.git != ""

/-- The first of revision, tag and branch that is given. -/
def pin (p : Prelude) : String :=
  if p.rev != "" then p.rev else if p.tag != "" then p.tag else p.branch

/-- The prelude in messages. -/
def describe (p : Prelude) : String :=
  if p.isGit then p.git ++ "@" ++ p.pin ++ ":" ++ p.file else p.path

/-- How many of revision, tag and branch are given. -/
def pinCount (p : Prelude) : Nat := [p.rev, p.tag, p.branch].countP (· != "")

/-- What is wrong with a prelude. -/
def issues (p : Prelude) : List Issue :=
  (if p.path == "" && p.git == "" then [.noOrigin] else [])
  ++ (if p.path != "" && p.git != "" then [.twoOrigins] else [])
  ++ (if p.path != "" && (p.pinCount > 0 || p.file != "") then [.pinnedPath] else [])
  ++ (if p.git != "" && p.pinCount == 0 then [.noPin] else [])
  ++ (if p.git != "" && p.pinCount > 1 then [.manyPins] else [])
  ++ (if p.git != "" && p.file == "" then [.noFile] else [])

/-- What is wrong with an entry of a list of preludes. -/
def entryIssues : Option Prelude → List Issue
  | none => [.absent]
  | some p => p.issues

/-- An entry of a list of preludes in messages. -/
def describeEntry : Option Prelude → String
  | none => "<nil prelude>"
  | some p => p.describe

/-- The prelude without blanks around its fields. -/
def trimmed (p : Prelude) : Prelude :=
  ⟨Text.trim p.path, Text.trim p.git, Text.trim p.rev, Text.trim p.tag, Text.trim p.branch,
    Text.trim p.file⟩

/-- How a prelude is written in a manifest. -/
def recordType : Yaml.RecordType Prelude where
  name := "driver.preludeYAML"
  fields := [
    Yaml.recordField "path" Yaml.text fun p s => { p with path := s },
    Yaml.recordField "git" Yaml.text fun p s => { p with git := s },
    Yaml.recordField "rev" Yaml.text fun p s => { p with rev := s },
    Yaml.recordField "tag" Yaml.text fun p s => { p with tag := s },
    Yaml.recordField "branch" Yaml.text fun p s => { p with branch := s },
    Yaml.recordField "file" Yaml.text fun p s => { p with file := s }]

end Prelude

/-- From which level on a run is logged, and in which format. -/
structure LogSettings where
  level : String := ""
  format : String := ""
  deriving DecidableEq, Repr

def LogSettings.recordType : Yaml.RecordType LogSettings where
  name := "driver.logYAML"
  fields := [
    Yaml.recordField "level" Yaml.text fun l s => { l with level := s },
    Yaml.recordField "format" Yaml.text fun l s => { l with format := s }]

/-- The description of a project; `dir` is the directory of its file, `path`. -/
structure Manifest where
  path : String := ""
  dir : String := ""
  name : String := ""
  main : String := ""
  onError : String := ""
  maxDepth : Int := 0
  log : LogSettings := {}
  entries : List (Option Prelude) := []
  deriving DecidableEq, Repr

namespace Manifest

/-- What is wrong with a manifest. -/
inductive Issue where
  | noName
  | noMain
  | policy (given : String)
  | negativeDepth
  | logLevel (given : String)
  | logFormat (given : String)
  | entry (index : Nat) (issue : Prelude.Issue)
  deriving DecidableEq, Repr

def Issue.text : Issue → String
  | noName => "name must be provided"
  | noMain => "main must be provided"
  | policy s => "on_error must be stop or continue, got " ++ Text.quote s
  | negativeDepth => "max_depth must not be negative"
  | logLevel s => "log.level " ++ Text.quote s ++ " is not one of debug, info, warn, error"
  | logFormat s => "log.format " ++ Text.quote s ++ " is not one of text, json"
  | entry i issue => "prelude[" ++ toString i ++ "]: " ++ issue.text

/-- The issues of a list of preludes, of which the first has the given index. -/
def entriesIssues (index : Nat) : List (Option Prelude) → List Issue
  | [] => []
  | e :: es => (Prelude.entryIssues e).map (.entry index) ++ entriesIssues (index + 1) es

/-- What is wrong with a manifest, in the order of its fields. -/
def issues (m : Manifest) : List Issue :=
  (if m.name == "" then [.noName] else [])
  ++ (if m.main == "" then [.noMain] else [])
  ++ (if (Policy.ofName? m.onError).isNone then [.policy m.onError] else [])
  ++ (if m.maxDepth < 0 then [.negativeDepth] else [])
  ++ (if ["debug", "info", "warn", "error"].contains m.log.level then [] else [.logLevel m.log.level])
  ++ (if ["text", "json"].contains m.log.format then [] else [.logFormat m.log.format])
  ++ entriesIssues 0 m.entries

/-- The message about a list of issues. -/
def issuesMessage (issues : List String) : String :=
  if issues.isEmpty then "manifest: invalid configuration"
  else "manifest validation failed:" ++ String.join (issues.map ("\n- " ++ ·))

/-- The preludes, without the entries that are absent; a manifest without issues has none of these. -/
def preludes (m : Manifest) : List Prelude := m.entries.filterMap id

/-- The preludes that come from a repository. -/
def gitPreludes (m : Manifest) : List Prelude := m.preludes.filter Prelude.isGit

/-- A path as seen from the manifest. -/
def resolve (m : Manifest) (path : String) : String :=
  if Path.isAbsolute path then path else Path.join m.dir path

def mainPath (m : Manifest) : String := m.resolve m.main

def lockfileName : String := "wistful.lock"

def lockfilePath (m : Manifest) : String := Path.join m.dir lockfileName

/-- The policy of a manifest without issues. -/
def policy (m : Manifest) : Policy := (Policy.ofName? m.onError).getD .stop

/-- The manifest without blanks around its fields, in lower case where case does not matter. -/
def normalized (m : Manifest) : Manifest :=
  let word (s fallback : String) : String :=
    let s := Text.lower (Text.trim s)
    if s == "" then fallback else s
  { m with
    name := Text.trim m.name
    main := Text.trim m.main
    onError := word m.onError "stop"
    log := ⟨word m.log.level "info", word m.log.format "text"⟩
    entries := m.entries.map (·.map Prelude.trimmed) }

/-- How a manifest is written. -/
def recordType : Yaml.RecordType Manifest where
  name := "driver.manifestFile"
  fields := [
    Yaml.recordField "name" Yaml.text fun m s => { m with name := s },
    Yaml.recordField "main" Yaml.text fun m s => { m with main := s },
    Yaml.recordField "on_error" Yaml.text fun m s => { m with onError := s },
    Yaml.recordField "max_depth" Yaml.int fun m n => { m with maxDepth := n },
    Yaml.recordField "log" (Yaml.record LogSettings.recordType {}) fun m l => { m with log := l },
    Yaml.recordField "prelude"
      (Yaml.list "[]driver.preludeYAML" (Yaml.record Prelude.recordType {}))
      fun m ps => { m with entries := ps.map some }]

/-- The manifest in a text, which has no path of its own. -/
def decode : ByteArray → Except Yaml.DecodeError Manifest := Yaml.decode recordType {}

end Manifest

/-- Why there is no manifest to work with. -/
inductive ManifestError where
  | notFound
  | emptyPath
  | load (path : String) (error : Yaml.LoadError)
  | invalid (issues : List Manifest.Issue)

def ManifestError.message : ManifestError → String
  | notFound => "manifest: wistful.yml not found"
  | emptyPath => "manifest: empty path"
  | load path (.missing e) => "manifest: open " ++ path ++ ": " ++ e.message
  | load path (.content .noDocument) => "manifest: " ++ path ++ " is empty"
  | load path e => "manifest: parse " ++ path ++ ": " ++ e.message
  | invalid issues => Manifest.issuesMessage (issues.map Manifest.Issue.text)

namespace Manifest

def fileName : String := "wistful.yml"

/-- The manifest in the directory with these segments, innermost first, or in one above it. -/
def findAbove (files : FileTree) (segments : List String) : Option String :=
  let path := Path.join (Path.ofSegments true segments.reverse) fileName
  if files.isDirectory? "/" path = some false then some path
  else match segments with
    | [] => none
    | _ :: above => findAbove files above

/-- The nearest manifest above a path, which need not lead anywhere. -/
def find (files : FileTree) (cwd start : String) : Option String :=
  let path := Path.absolute cwd start
  let dir := if files.isDirectory? "/" path = some false then Path.dir path else path
  findAbove files (Path.cleanSegments dir).reverse

/-- The manifest in a file, which has no issues. -/
def load (files : FileTree) (cwd path : String)
    (read : ByteArray → Except Yaml.DecodeError Manifest := decode) :
    Except ManifestError Manifest :=
  if path = "" then .error .emptyPath
  else
    let path := Path.absolute cwd path
    match Yaml.load read files path with
    | .error e => .error (.load path e)
    | .ok m =>
      let m := { m with path, dir := Path.dir path }.normalized
      if m.issues.isEmpty then .ok m else .error (.invalid m.issues)

/-- The nearest manifest above a path. -/
def loadAbove (files : FileTree) (cwd start : String)
    (read : ByteArray → Except Yaml.DecodeError Manifest := decode) :
    Except ManifestError Manifest :=
  match find files cwd start with
  | some path => load files cwd path read
  | none => .error .notFound

end Manifest

end Scriptlet
