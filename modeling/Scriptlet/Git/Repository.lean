import Scriptlet.Files.Path
import Scriptlet.Text.Hex

/-!
# Repositories

A repository is a list of commits and a list of references to them. A revision names a commit by its
hash or by a reference, which may be followed by steps to its ancestors.

## Main definitions

* `Git.Commit`, `Git.Repository`: commits with their files, and references
* `Git.Repository.commit`: a repository with one more commit
* `Git.Repository.clone`: what a copy of a repository has
* `Git.Repository.resolve`: the hash of the commit that a revision names
* `Git.Library`: the questions about repositories, with these answers unless there are others
-/

namespace Scriptlet.Git

/-- The files at one time, and the commit before. -/
structure Commit where
  hash : String
  parent : Option String
  files : List (String × ByteArray)

/-- Commits, and the hashes that references stand for. -/
structure Repository where
  commits : List Commit := []
  refs : List (String × String) := []

/-- Why there is no copy of a repository. -/
inductive CloneError where
  | notFound
  | empty
  deriving DecidableEq, Repr

def CloneError.message : CloneError → String
  | notFound => "repository not found"
  | empty => "remote repository is empty"

/-- Why a revision names no commit. -/
inductive RevisionError where
  | notFound
  /-- A step leads beyond the first commit. -/
  | noParent
  deriving DecidableEq, Repr

def RevisionError.message : RevisionError → String
  | notFound => "reference not found"
  | noParent => "EOF"

namespace Repository

def commit? (r : Repository) (hash : String) : Option Commit :=
  r.commits.find? (·.hash == hash)

/-- The repository with a reference, which replaces an older one of the same name. -/
def setRef (r : Repository) (name hash : String) : Repository :=
  { r with refs := (name, hash) :: r.refs.filter (·.1 != name) }

/-- The commit that the next one follows. -/
def head? (r : Repository) : Option Commit := do r.commit? (← r.refs.lookup "HEAD")

/--
The repository with one more commit on the branch `master`: some files are new or changed, and some
tags and branches refer to it.
-/
def commit (r : Repository) (hash : String) (changes : List (String × ByteArray))
    (tags branches : List String) : Repository :=
  let kept := ((r.head?.map Commit.files).getD []).filter fun (path, _) =>
    (changes.lookup path).isNone
  let names := "HEAD" :: "refs/heads/master" ::
    (tags.map ("refs/tags/" ++ ·) ++ branches.map ("refs/heads/" ++ ·))
  let next : Commit := ⟨hash, r.head?.map Commit.hash, kept ++ changes⟩
  names.foldl (fun r name => r.setRef name hash) { r with commits := r.commits ++ [next] }

/-- The branch that a reference stands for. -/
def branchOf? (name : String) : Option String :=
  let front := "refs/heads/".toList
  if front.isPrefixOf name.toList then some (String.ofList (name.toList.drop front.length)) else none

/-- What a copy has: the branches as those of the remote, and of its own only the main one. -/
def clone (r : Repository) : Except CloneError Repository :=
  if r.commits.isEmpty then .error .empty
  else
    let copied (ref : String × String) : List (String × String) :=
      match branchOf? ref.1 with
      | none => [ref]
      | some branch =>
        (if branch = "master" then [ref] else []) ++ [("refs/remotes/origin/" ++ branch, ref.2)]
    .ok { r with refs := r.refs.flatMap copied }

/-- The references that a short name may stand for, the first one that exists counts. -/
def candidates (name : String) : List String :=
  [name, "refs/" ++ name, "refs/tags/" ++ name, "refs/heads/" ++ name, "refs/remotes/" ++ name,
    "refs/remotes/" ++ name ++ "/HEAD"]

/-- The commit that a hash or a reference names. -/
def named? (r : Repository) (name : String) : Option Commit :=
  match r.commit? name with
  | some c => some c
  | none => do r.commit? (← (candidates name).findSome? fun n => r.refs.lookup n)

/-- The commit `n` steps before another one. -/
def ancestor? (r : Repository) : Nat → Commit → Option Commit
  | 0, c => some c
  | n + 1, c => do ancestor? r n (← r.commit? (← c.parent))

/-- The number of steps that `~`, `~2` or `~~` asks for. -/
def stepCount? (cs : List Char) : Option Nat :=
  match cs with
  | [] => some 0
  | c :: rest =>
    if c = '~' then
      let digits := rest.takeWhile Char.isDigit
      let n := digits.foldl (fun n d => n * 10 + (d.toNat - 48)) 0
      (stepCount? (rest.dropWhile Char.isDigit)).map (· + if digits.isEmpty then 1 else n)
    else none
termination_by cs.length
decreasing_by
  have := (List.dropWhile_sublist Char.isDigit (l := rest)).length_le
  simp only [List.length_cons]
  omega

/-- The hash of the commit that a revision names. -/
def resolve (r : Repository) (revision : String) : Except RevisionError String :=
  let name := revision.toList.takeWhile (· != '~')
  match r.named? (String.ofList name), stepCount? (revision.toList.drop name.length) with
  | some c, some n =>
    match r.ancestor? n c with
    | some c => .ok c.hash
    | none => .error .noParent
  | _, _ => .error .notFound

end Repository

/-- A copy of the repository at a local path, which a URL may give. -/
def cloneLocal (repositories : List (String × Repository)) (cwd url : String) :
    Except CloneError Repository :=
  let scheme := "file://".toList
  let path := if scheme.isPrefixOf url.toList then url.toList.drop scheme.length else url.toList
  match repositories.lookup (Path.absolute cwd (String.ofList path)) with
  | some r => r.clone
  | none => .error .notFound

/-- The hash that a text stands for: its bytes as far as it is hexadecimal, filled up with zeros. -/
def hashOfText (text : String) : String :=
  let rec bytes : List Char → List Char
    | a :: b :: rest =>
      match Text.hexValue? a, Text.hexValue? b with
      | some x, some y => Text.hexDigits 1 x ++ Text.hexDigits 1 y ++ bytes rest
      | _, _ => []
    | _ => []
  let digits := (bytes text.toList).take 40
  String.ofList (digits ++ List.replicate (40 - digits.length) '0')

/-- What is asked about copies of repositories. Any answers will do for the cache. -/
structure Library where
  /-- The hash of the commit that a revision names. -/
  resolve : Repository → String → Except RevisionError String := Repository.resolve
  /-- The files of the commit with a hash. -/
  files (r : Repository) (hash : String) : Option (List (String × ByteArray)) :=
    (r.commit? hash).map Commit.files
  /-- The hash that a text stands for. -/
  hash : String → String := hashOfText

end Scriptlet.Git
