import Scriptlet.Files.Tree
import Scriptlet.Git.Repository
import Scriptlet.Lockfile
import Scriptlet.Log

/-!
# The world of a command

What a command finds around it and may change: the files and how they are read, the repositories that
can be copied, the settings of the user, the time, and the log. A task works on that world; what it has
changed stays changed when it fails.

## Main definitions

* `World`: all that a command depends on
* `Task`: what works on a world and may fail
* `World.home`: the directory for what is kept between runs
-/

namespace Scriptlet

/-- All that a command depends on, apart from its arguments and its input. -/
structure World where
  files : FileTree := {}
  /-- The directory that relative paths start from. -/
  cwd : String
  /-- The directory of the user; empty if there is none. -/
  userHome : String := ""
  /-- The directory to use in place of the one below `userHome`; empty if there is none. -/
  givenHome : String := ""
  /-- The copy of the repository that a URL names. -/
  clone : String → Except Git.CloneError Git.Repository := fun _ => .error .notFound
  /-- What is known of copies of repositories. -/
  git : Git.Library := {}
  /-- How manifests are read. -/
  readManifest : ByteArray → Except Yaml.DecodeError Manifest := Manifest.decode
  /-- How lockfiles are read and written. -/
  lockfiles : Lockfile.Format := {}
  /-- The time of the clock, as lockfiles show it. -/
  now : String := ""
  /-- The time of the clock, as logs show it. -/
  logTime : String := ""
  /-- What has been logged, oldest first. -/
  log : List Log.Entry := []

/-- What works on a world and may fail. -/
abbrev Task (ε α : Type) : Type := ExceptT ε (StateM World) α

namespace Task

variable {ε : Type}

/-- Adds an entry to the log. -/
def report (level : Log.Level) (message : String) (fields : List (String × Log.Field)) : Task ε Unit :=
  modify fun w => { w with log := w.log ++ [⟨level, message, fields⟩] }

/-- Changes the files. -/
def edit (f : FileTree → FileTree) : Task ε Unit :=
  modify fun w => { w with files := f w.files }

/-- The result, or the error as another one. -/
def orFail {δ α : Type} (r : Except δ α) (f : δ → ε) : Task ε α :=
  match r with
  | .ok a => pure a
  | .error e => throw (f e)

/-- Does what changes the files and may fail. -/
def onFiles {α : Type} (f : World → Except ε α × FileTree) : Task ε α := do
  let w ← get
  set { w with files := (f w).2 }
  orFail (f w).1 id

/-- Changes the files after something was done, whether that failed or not. -/
def cleanup {α : Type} (x : Task ε α) (f : FileTree → FileTree) : Task ε α := do
  let r ← ExceptT.lift x.run
  edit f
  orFail r id

end Task

namespace World

/-- There is no directory for what is kept between runs. -/
structure NoHome where
  deriving DecidableEq, Repr

def NoHome.message (_ : NoHome) : String := "resolve home: $HOME is not defined"

/-- The directory for what is kept between runs. -/
def home (w : World) : Except NoHome String :=
  let given := Text.trim w.givenHome
  if given != "" then .ok (Path.absolute w.cwd given)
  else if w.userHome = "" then .error ⟨⟩
  else .ok (Path.join w.userHome ".wistful")

/-- The lines of the log that a logger writes. -/
def logText (w : World) (logger : Logger) : String := logger.write w.logTime w.log

/-- The content of a file. -/
def read (w : World) (path : String) : Except FileError ByteArray := w.files.read w.cwd path

/-- The nearest manifest above a path. -/
def manifestAbove (w : World) (start : String) : Except ManifestError Manifest :=
  Manifest.loadAbove w.files w.cwd start w.readManifest

/-- The lockfile in a file. -/
def lockfile (w : World) (path : String) : Except LockfileError Lockfile :=
  Lockfile.load w.files w.cwd path w.lockfiles

end World

end Scriptlet
