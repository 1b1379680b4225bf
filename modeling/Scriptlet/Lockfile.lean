import Scriptlet.Manifest
import Scriptlet.Yaml.Printer

/-!
# Lockfiles

A lockfile records, for each prelude that comes from a repository, the commit that was fetched for it
and the checksum of its file. An entry belongs to a repository, a reference and a file; these three
are its key.

## Main definitions

* `Prelude.reference`: how a lockfile names the revision, tag or branch of a prelude
* `Lockfile.find?`, `Lockfile.put`: a lockfile as a map from keys to entries
* `Lockfile.normalize`: the entries in increasing order of their keys
* `Lockfile.Format`: how lockfiles are read and written
* `Lockfile.load`, `Lockfile.write`: lockfiles in files
-/

namespace Scriptlet

/-- How a lockfile names the revision, tag or branch of a prelude. -/
def Prelude.reference (p : Prelude) : String :=
  if p.rev != "" then "rev:" ++ p.rev
  else if p.tag != "" then "tag:" ++ p.tag
  else if p.branch != "" then "branch:" ++ p.branch
  else ""

/-- The commit that a prelude was resolved to. -/
structure LockedSource where
  git : String := ""
  ref : String := ""
  commit : String := ""
  file : String := ""
  checksum : String := ""
  deriving DecidableEq, Repr

namespace LockedSource

/-- What an entry is for: a repository, a reference and a file. -/
def key (s : LockedSource) : String × String × String := (s.git, s.ref, s.file)

/-- The order of keys, field by field. -/
def le (s t : LockedSource) : Bool :=
  if s.git != t.git then s.git < t.git
  else if s.ref != t.ref then s.ref < t.ref
  else !(t.file < s.file)

/-- The entry without blanks around its fields. -/
def trimmed (s : LockedSource) : LockedSource :=
  ⟨Text.trim s.git, Text.trim s.ref, Text.trim s.commit, Text.trim s.file, Text.trim s.checksum⟩

/-- How an entry is written. -/
def recordType : Yaml.RecordType LockedSource where
  name := "driver.lockfileSource"
  fields := [
    Yaml.recordField "git" Yaml.text fun s t => { s with git := t },
    Yaml.recordField "ref" Yaml.text fun s t => { s with ref := t },
    Yaml.recordField "commit" Yaml.text fun s t => { s with commit := t },
    Yaml.recordField "file" Yaml.text fun s t => { s with file := t },
    Yaml.recordField "checksum" Yaml.text fun s t => { s with checksum := t }]

/-- The fields of an entry, in the order in which they are written. -/
def fields (s : LockedSource) : List (String × String) :=
  [("git", s.git), ("ref", s.ref), ("commit", s.commit), ("file", s.file), ("checksum", s.checksum)]

end LockedSource

/-- What a prelude is locked under. -/
def Prelude.key (p : Prelude) : String × String × String := (p.git, p.reference, p.file)

/-- The entries of a project, and when and by which program they were recorded. -/
structure Lockfile where
  path : String := ""
  project : String := ""
  generated : String := ""
  tool : String := ""
  sources : List (Option LockedSource) := []
  deriving DecidableEq, Repr

/-- Why a lockfile can be neither read nor written. -/
inductive LockfileError where
  | absent
  | emptyPath
  | missingPath
  | load (path : String) (error : Yaml.LoadError)
  | write (path : String) (error : FileError)

def LockfileError.message : LockfileError → String
  | absent => "lockfile: nil lockfile"
  | emptyPath => "lockfile: empty path"
  | missingPath => "lockfile: missing path"
  | load _ (.missing e) => e.message
  | load path e => "lockfile: parse " ++ path ++ ": " ++ e.message
  | write path e => "lockfile: write " ++ path ++ ": " ++ e.message

/-- Whether the file itself is what is missing. -/
def LockfileError.isNotExist : LockfileError → Bool
  | load _ (.missing e) | write _ e => e.cause == .notExist
  | _ => false

namespace Lockfile

/-- A lockfile without entries. -/
def new (project tool now : String) : Lockfile where
  project := Text.trim project
  generated := now
  tool := Text.trim tool

/-- Whether an entry has the given key. -/
def hasKey (key : String × String × String) : Option LockedSource → Bool
  | some s => s.key == key
  | none => false

@[simp] theorem hasKey_some (key : String × String × String) (s : LockedSource) :
    hasKey key (some s) = (s.key == key) := rfl

@[simp] theorem hasKey_none (key : String × String × String) : hasKey key none = false := rfl

/-- The first entry for a prelude that comes from a repository. -/
def find? (l : Lockfile) (p : Prelude) : Option LockedSource :=
  if p.isGit then (l.sources.find? (hasKey p.key)).join else none

/-- Replaces the first entry with the key of `s`, or puts `s` behind the others. -/
def putSource (s : LockedSource) : List (Option LockedSource) → List (Option LockedSource)
  | [] => [some s]
  | t :: rest => if hasKey s.key t then some s :: rest else t :: putSource s rest

/-- The lockfile with an entry, which replaces an older one for the same key. -/
def put (l : Lockfile) (s : LockedSource) : Lockfile :=
  { l with sources := putSource s l.sources }

/-- The entries without blanks around their fields, in increasing order of their keys. -/
def normalize (l : Lockfile) : Lockfile :=
  let kept := (l.sources.filterMap id).map LockedSource.trimmed
  { l with sources := (kept.mergeSort LockedSource.le).map some }

/-- How a lockfile is written. -/
def recordType : Yaml.RecordType Lockfile where
  name := "driver.lockfileDisk"
  fields := [
    Yaml.recordField "project" Yaml.text fun l s => { l with project := s },
    Yaml.recordField "generated" Yaml.text fun l s => { l with generated := s },
    Yaml.recordField "tool" Yaml.text fun l s => { l with tool := s },
    Yaml.recordField "sources"
      (Yaml.list "[]driver.lockfileSource" (Yaml.record LockedSource.recordType {}))
      fun l ss => { l with sources := ss.map some }]

/-- The lockfile without blanks around its fields. -/
def trimmed (l : Lockfile) : Lockfile :=
  { l with
    project := Text.trim l.project, generated := Text.trim l.generated, tool := Text.trim l.tool }

/-- The text of a lockfile. -/
def print (l : Lockfile) : String :=
  Yaml.print [
    ("project", .text l.project), ("generated", .text l.generated), ("tool", .text l.tool),
    ("sources", .records ((l.sources.filterMap id).map LockedSource.fields))]

/-- How lockfiles are read and written; the path of a lockfile is not part of its text. -/
structure Format where
  read : ByteArray → Except Yaml.DecodeError Lockfile := Yaml.decode recordType {}
  print : Lockfile → String := Lockfile.print

/-- The lockfile in a file. -/
def load (files : FileTree) (cwd path : String) (format : Format := {}) :
    Except LockfileError Lockfile :=
  if path = "" then .error .emptyPath
  else
    let path := Path.absolute cwd path
    match Yaml.load format.read files path with
    | .error e => .error (.load path e)
    | .ok l => .ok { l with path }.trimmed.normalize

/-- The lockfile as it is written to a path at a time. -/
def prepared (l : Lockfile) (path now : String) : Lockfile :=
  { l with path, generated := if l.generated = "" then now else l.generated }.normalize

/--
Writes a lockfile, to the path that it came from if `path` is empty. The lockfile that is returned
has that path and its entries in order, even if it could not be written.
-/
def write (l : Lockfile) (files : FileTree) (cwd path now : String) (format : Format := {}) :
    Lockfile × Except LockfileError FileTree :=
  let path := if path = "" then l.path else path
  if path = "" then (l, .error .missingPath)
  else
    let path := Path.absolute cwd path
    let l := l.prepared path now
    (l, (files.write cwd path (format.print l).toUTF8).mapError (.write path))

end Lockfile

end Scriptlet
