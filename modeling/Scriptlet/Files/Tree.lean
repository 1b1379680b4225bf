import Scriptlet.Files.Path

/-!
# File trees

A file system as a value: the files and directories at each place, where a place is the list of
segments that lead to it from the root. Paths are followed segment by segment, so every directory on
the way has to be there, even one that `..` leaves again.

## Main definitions

* `FileTree`: files and directories by place
* `FileTree.find`: follows a path
* `FileTree.read`, `FileTree.write`, `FileTree.makeDirs`: the operations, which fail as files do
* `FileTree.remove`, `FileTree.move`: entries with all that is below them
* `FileError`: the operation, the path, and what is wrong with it
-/

namespace Scriptlet

/-- What can be wrong with a path. -/
inductive FileError.Cause where
  | notExist
  | notDirectory
  | isDirectory
  | invalid
  | nameTooLong
  deriving DecidableEq, Repr

def FileError.Cause.text : FileError.Cause → String
  | notExist => "no such file or directory"
  | notDirectory => "not a directory"
  | isDirectory => "is a directory"
  | invalid => "invalid argument"
  | nameTooLong => "file name too long"

/-- A failed operation on a path. -/
structure FileError where
  operation : String
  path : String
  cause : FileError.Cause
  deriving DecidableEq, Repr

def FileError.message (e : FileError) : String :=
  e.operation ++ " " ++ e.path ++ ": " ++ e.cause.text

inductive FileTree.Entry where
  | file (bytes : ByteArray)
  | directory
  deriving Inhabited

/-- Files and directories by place; the root is always a directory. -/
structure FileTree where
  entries : List (List String × FileTree.Entry) := []
  deriving Inhabited

namespace FileTree

def entryAt? (t : FileTree) (place : List String) : Option Entry :=
  if place.isEmpty then some .directory else t.entries.lookup place

/-- The tree with an entry at a place, which replaces an older one. -/
def put (t : FileTree) (place : List String) (e : Entry) : FileTree :=
  ⟨(place, e) :: t.entries.filter (·.1 != place)⟩

@[simp] theorem entryAt?_nil (t : FileTree) : t.entryAt? [] = some .directory := rfl

theorem entryAt?_put_self (t : FileTree) {place : List String} (e : Entry) (h : place ≠ []) :
    (t.put place e).entryAt? place = some e := by
  simp [entryAt?, put, h]

theorem lookup_filter_ne {p q : List String} (h : q ≠ p) (l : List (List String × Entry)) :
    (l.filter (·.1 != p)).lookup q = l.lookup q := by
  induction l with
  | nil => rfl
  | cons x l ih =>
    obtain ⟨a, e⟩ := x
    by_cases ha : a = p
    · subst ha
      rw [List.filter_cons_of_neg (by simp), ih, List.lookup_cons, beq_false_of_ne h]
    · rw [List.filter_cons_of_pos (by simpa using ha), List.lookup_cons, List.lookup_cons, ih]

theorem entryAt?_put_of_ne (t : FileTree) {place q : List String} (e : Entry) (h : q ≠ place) :
    (t.put place e).entryAt? q = t.entryAt? q := by
  unfold entryAt? put
  split
  · rfl
  · rw [List.lookup_cons, beq_false_of_ne h]
    exact lookup_filter_ne h t.entries

/-- The tree with a directory at a place and above it, unless they are there. -/
def putDirs (t : FileTree) (place : List String) : FileTree :=
  (List.range (place.length + 1)).foldl (fun t n =>
    let above := place.take n
    if (t.entryAt? above).isSome then t else t.put above .directory) t

/-- The tree with a file at a place, in directories that are made for it. -/
def putFile (t : FileTree) (place : List String) (bytes : ByteArray) : FileTree :=
  (t.putDirs place.dropLast).put place (.file bytes)

/-- Where a path leads. -/
inductive Found where
  /-- To an entry. -/
  | entry (place : List String) (entry : Entry)
  /-- To a place in a directory where nothing is. -/
  | vacant (place : List String)
  /-- Nowhere. -/
  | blocked (cause : FileError.Cause)

/-- Follows segments from a place. -/
def walk (t : FileTree) (place : List String) : List String → Found
  | [] =>
    match t.entryAt? place with
    | some e => .entry place e
    | none => .blocked .notExist
  | segment :: rest =>
    match t.entryAt? place with
    | some .directory =>
      if segment = "" ∨ segment = "." then walk t place rest
      else if segment = ".." then walk t place.dropLast rest
      else if segment.utf8ByteSize > 255 then .blocked .nameTooLong
      else
        let inner := place ++ [segment]
        if (t.entryAt? inner).isSome then walk t inner rest
        else if rest.isEmpty then .vacant inner
        else .blocked .notExist
    | some (.file _) => .blocked .notDirectory
    | none => .blocked .notExist

/-- Follows a path from the directory `cwd`. -/
def find (t : FileTree) (cwd path : String) : Found :=
  if path = "" then .blocked .notExist
  else if path.toList.contains '\x00' then .blocked .invalid
  else if path.utf8ByteSize ≥ 4096 then .blocked .nameTooLong
  else
    let start := if Path.isAbsolute path then [] else Path.cleanSegments cwd
    t.walk start (Path.segments path)

/-- Whether a path leads to something, and then whether that is a directory. -/
def isDirectory? (t : FileTree) (cwd path : String) : Option Bool :=
  match t.find cwd path with
  | .entry _ .directory => some true
  | .entry _ (.file _) => some false
  | _ => none

/-- Opens a file for reading; a directory can be opened, but `read` fails on it. -/
def read (t : FileTree) (cwd path : String) : Except FileError ByteArray :=
  match t.find cwd path with
  | .entry _ (.file bytes) => .ok bytes
  | .entry _ .directory => .error ⟨"read", path, .isDirectory⟩
  | .vacant _ => .error ⟨"open", path, .notExist⟩
  | .blocked cause => .error ⟨"open", path, cause⟩

/-- Writes a file, which is made if its directory is there. -/
def write (t : FileTree) (cwd path : String) (bytes : ByteArray) : Except FileError FileTree :=
  match t.find cwd path with
  | .entry place (.file _) | .vacant place => .ok (t.put place (.file bytes))
  | .entry _ .directory => .error ⟨"open", path, .isDirectory⟩
  | .blocked cause => .error ⟨"open", path, cause⟩

/-- Makes a directory, unless it is there. -/
def makeDir (t : FileTree) (cwd path : String) : Except FileError FileTree :=
  match t.find cwd path with
  | .entry _ .directory => .ok t
  | .entry _ (.file _) => .error ⟨"mkdir", path, .notDirectory⟩
  | .vacant place => .ok (t.put place .directory)
  | .blocked cause => .error ⟨"mkdir", path, cause⟩

/-- Makes directories one after the other, until one cannot be made. -/
def makeEach (t : FileTree) (cwd : String) : List String → Except FileError Unit × FileTree
  | [] => (.ok (), t)
  | path :: rest =>
    match t.makeDir cwd path with
    | .ok t => makeEach t cwd rest
    | .error e => (.error e, t)

/-- The paths on the way to a path, which is the last of them. -/
def steps (path : String) : List String :=
  let segments := Path.cleanSegments path
  (List.range (max segments.length 1)).map fun n =>
    Path.ofSegments (Path.isAbsolute path) (segments.take (n + 1))

/-- Makes the directories of a path that are missing. Those above one that cannot be made are kept. -/
def makeDirs (t : FileTree) (cwd path : String) : Except FileError Unit × FileTree :=
  t.makeEach cwd (steps path)

/-- A name for a new entry of a directory: `front` and the first number that makes it new. -/
def freshName (t : FileTree) (dir : List String) (front : String) : String :=
  let name (n : Nat) : String := front ++ toString n
  let isFree (n : Nat) : Bool := (t.entryAt? (dir ++ [name n])).isNone
  name (((List.range (t.entries.length + 1)).find? isFree).getD 0)

/-- The tree with a directory of files at a place. -/
def putFiles (t : FileTree) (place : List String) (files : List (String × ByteArray)) : FileTree :=
  files.foldl (fun t (path, bytes) => t.putFile (place ++ Path.cleanSegments path) bytes)
    (t.putDirs place)

/-- The tree without the entry at a place and all that is below it. -/
def remove (t : FileTree) (place : List String) : FileTree :=
  ⟨t.entries.filter fun (p, _) => !place.isPrefixOf p⟩

/-- The tree in which the entry at `source`, with all that is below it, is at `target` instead. -/
def move (t : FileTree) (source target : List String) : FileTree :=
  ⟨t.entries.map fun (p, e) =>
    if source.isPrefixOf p then (target ++ p.drop source.length, e) else (p, e)⟩

/-- The entries that are not the same in an older tree, the outer ones first. -/
def changesFrom (old new : FileTree) : List (List String × Entry) :=
  let isNew : List String × Entry → Bool
    | (place, .directory) => (old.entryAt? place).isNone
    | (place, .file bytes) =>
      match old.entryAt? place with
      | some (.file older) => older != bytes
      | _ => true
  (new.entries.filter isNew).mergeSort fun a b => a.1.length ≤ b.1.length

end FileTree

end Scriptlet
