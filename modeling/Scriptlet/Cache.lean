import Scriptlet.Digest.Sha256
import Scriptlet.Lockfile
import Scriptlet.World

/-!
# The cache of checkouts

Preludes that come from repositories are kept on disk. Every repository has a directory in the cache,
and every commit that was used has a directory in there, with the files of that commit. A commit is
put together in a scratch directory and then moved to its place, so that a directory with the name of
a commit is always complete.

## Main definitions

* `Cache.segment`, `Cache.repositoryDir`, `Cache.sourcePath`: where things are kept
* `Cache.ensure`: makes sure that a commit of a repository is in the cache
* `Cache.fetch`: resolves a prelude to a commit, and keeps it
* `Cache.checkout`: the path of a prelude that is already resolved
-/

namespace Scriptlet

/-- Why a prelude cannot be kept or found in the cache. -/
inductive CacheError where
  | notGit (prelude? : Option Prelude)
  | noPin (p : Prelude)
  | clone (url : String) (error : Git.CloneError)
  | revision (reference : String) (error : Git.RevisionError)
  | noCommit (hash : String)
  | directory (error : FileError)
  /-- The file of a prelude is not in its repository. -/
  | source (p : Prelude) (error : FileError)
  | file (error : FileError)
  | noLockedCommit
  | mismatch (path : String)

def CacheError.message : CacheError → String
  | notGit p => "prelude " ++ Prelude.describeEntry p ++ ": git URL required"
  | noPin p => "prelude " ++ p.describe ++ ": " ++ Prelude.Issue.noPin.text
  | clone url e => "git clone " ++ url ++ ": " ++ e.message
  | revision reference e => "resolve revision " ++ reference ++ ": " ++ e.message
  | noCommit hash => "git checkout " ++ hash ++ ": object not found"
  | directory e | file e => e.message
  | source p e => "prelude " ++ p.describe ++ ": " ++ e.message
  | noLockedCommit => "locked prelude: missing commit"
  | mismatch path => path ++ ": prelude checksum mismatch"

/-- The revisions to try for a prelude, in order; a branch may only be known as one of the remote. -/
def Prelude.revisions (p : Prelude) : List String :=
  let rev := Text.trim p.rev
  let tag := Text.trim p.tag
  let branch := Text.trim p.branch
  if rev != "" then [rev]
  else if tag != "" then ["refs/tags/" ++ tag]
  else if branch != "" then ["refs/heads/" ++ branch, "refs/remotes/origin/" ++ branch]
  else []

namespace Cache

/-- Characters that a URL keeps in the name of its directory. -/
def isSafe (c : Char) : Bool := c.isAlphanum || c == '.' || c == '-' || c == '_'

/-- The name of the directory of a repository. -/
def segment (url : String) : String :=
  let cs := Text.trimChars url.toList
  if cs.isEmpty then "head" else String.ofList (cs.map fun c => if isSafe c then c else '_')

/-- The name of a directory has safe characters only, so no slash in particular. -/
theorem isSafe_of_mem_segment {url : String} {c : Char} (h : c ∈ (segment url).toList) :
    isSafe c := by
  simp only [segment] at h
  split at h
  · have safe : "head".toList.all isSafe = true := rfl
    exact List.all_eq_true.1 safe c h
  · rw [String.toList_ofList, List.mem_map] at h
    obtain ⟨d, _, rfl⟩ := h
    split
    · assumption
    · decide

/-- The directory of a repository. -/
def repositoryDir (home url : String) : String :=
  Path.join (Path.join home "git") (segment url)

/-- The path of a prelude that is resolved to a commit. -/
def sourcePath (home : String) (s : LockedSource) : String :=
  Path.join (Path.join (repositoryDir home s.git) s.commit) s.file

/-- The checksum of a file. -/
def checksum (w : World) (path : String) : Except FileError String :=
  (w.read path).map Sha256.hex

/-- The segments that lead to a path from the root. -/
def place (path : String) : Task CacheError (List String) := do
  return Path.cleanSegments (Path.absolute (← get).cwd path)

/-- Makes the scratch directory to have its name; it is gone again when a repository is copied there. -/
def claim (path : String) : Task CacheError Unit := do
  let w ← get
  Task.orFail ((w.files.makeDir w.cwd path).map fun _ => ()) CacheError.directory

/-- Makes the files of a commit in the scratch directory. -/
def checkOut (r : Git.Repository) (hash : String) (scratch : List String) : Task CacheError Unit := do
  match (← get).git.files r hash with
  | none => throw (.noCommit hash)
  | some files => Task.edit (·.putFiles scratch files)

/-- Why the scratch directory cannot be moved to a path. -/
def renameError (scratch : List String) (path : String) (cause : FileError.Cause) : CacheError :=
  .directory ⟨"rename", Path.ofSegments true scratch ++ " " ++ path, cause⟩

/--
Checks a commit out in the scratch directory and moves that to a path, unless the path leads to
something already. A path that cannot be followed is noticed by the move only.
-/
def settle (r : Git.Repository) (hash : String) (scratch : List String) (path : String) :
    Task CacheError String := do
  let w ← get
  match w.files.find w.cwd path with
  | .entry .. => return hash
  | .vacant target =>
    checkOut r hash scratch
    Task.edit (·.move scratch target)
    return hash
  | .blocked cause =>
    checkOut r hash scratch
    throw (renameError scratch path cause)

/-- Copies a repository into a scratch directory, and puts the commit that `choose` picks in its place. -/
def install (url dir : String) (scratch : List String)
    (choose : Git.Repository → Except CacheError String) : Task CacheError String := do
  Task.report .debug "cloning prelude repository" [("git", .text url)]
  let repository ← Task.orFail ((← get).clone url) (CacheError.clone url)
  Task.edit (·.putDirs scratch)
  let hash ← Task.orFail (choose repository) id
  settle repository hash scratch (Path.join dir hash)

/--
Makes sure that the commit that `choose` picks is in the cache, and returns its hash. The scratch
directory is removed in the end, whatever happens.
-/
def ensure (url dir : String) (choose : Git.Repository → Except CacheError String) :
    Task CacheError String := do
  (Task.onFiles fun w => w.files.makeDirs w.cwd dir).adapt .directory
  let base ← place dir
  let name := (← get).files.freshName base "git-fetch-"
  claim (Path.join dir name)
  let scratch := base ++ [name]
  (install url dir scratch choose).cleanup (·.remove scratch)

/-- The first of some revisions that a repository has; otherwise why it has not the last one. -/
def firstRevision (git : Git.Library) (r : Git.Repository) :
    List String → Except Git.RevisionError String
  | [] => .error .notFound
  | [revision] => git.resolve r revision
  | revision :: rest =>
    match git.resolve r revision with
    | .ok hash => .ok hash
    | .error _ => firstRevision git r rest

/-- What resolves a prelude to an entry of a lockfile. -/
abbrev Fetcher : Type := Prelude → Task CacheError LockedSource

/-- Resolves a prelude to a commit, which is then in the cache, with the checksum of its file. -/
def fetch (home : String) : Fetcher := fun p => do
  unless p.isGit do throw (.notGit (some p))
  if p.revisions.isEmpty then throw (.noPin p)
  let git := (← get).git
  let commit ← ensure p.git (repositoryDir home p.git) fun r =>
    (firstRevision git r p.revisions).mapError (.revision p.reference)
  let s : LockedSource := { git := p.git, ref := p.reference, commit, file := p.file }
  let sum ← Task.orFail (checksum (← get) (sourcePath home s)) (CacheError.source p)
  Task.report .info "fetched prelude"
    [("git", .text s.git), ("ref", .text s.ref), ("commit", .text s.commit), ("file", .text s.file)]
  return { s with checksum := sum }

/-- The path of a prelude that is resolved; its file has the checksum that was recorded, if any. -/
def checkout (home : String) (s : LockedSource) : Task CacheError String := do
  if s.commit = "" then throw .noLockedCommit
  let dir := repositoryDir home s.git
  let w ← get
  if (w.files.isDirectory? w.cwd (Path.join dir s.commit)).isNone then
    discard <| ensure s.git dir fun _ => .ok (w.git.hash s.commit)
  let path := sourcePath home s
  if s.checksum != "" then
    let sum ← Task.orFail (checksum (← get) path) CacheError.file
    if sum != s.checksum then throw (.mismatch path)
  return path

end Cache

end Scriptlet
