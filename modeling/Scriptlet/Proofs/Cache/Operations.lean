import Scriptlet.Proofs.Cache.Containment
import Scriptlet.Proofs.Files.Moving
import Scriptlet.Proofs.Files.Writing

/-!
# What the cache leaves to others

To put a commit together, a name for a scratch directory is needed, and something that copies a
repository, checks a commit out and moves a directory. These are parameters here, of which it is only
known where they write. The cache itself works with one instance of them, in which repositories are
values and nothing can go wrong half way.

## Main definitions

* `Cache.Operations`, `Cache.Operations.Lawful`: the operations, and what is known of them
* `Cache.ensureWith`: makes sure that a commit is in the cache, by some operations
* `Cache.Operations.copying`: the operations on repositories that are values

## Main statements

* `Cache.ensure_eq`: the cache works with an instance of the operations
* `Cache.Operations.lawful_copying`: which has what is asked of them
-/

namespace Scriptlet

namespace Cache

open FileTree

/-! ## Operations -/

/-- What the cache leaves to others. Each operation may look at the world, and changes files. -/
structure Operations where
  /-- The name of a new entry of a directory. -/
  scratchName : World → List String → Except CacheError String
  /-- Copies a repository to a place. -/
  clone : String → List String → World → Except CacheError Git.Repository × FileTree
  /-- Makes the files at a place those of a commit. -/
  checkOut : Git.Repository → String → List String → World → Except CacheError Unit × FileTree
  /-- Moves the entry at a place to another place. -/
  rename : List String → List String → World → Except CacheError Unit × FileTree

/--
Names for scratch directories are new, and copies and checkouts write at their place only. A move to a
place where nothing was is done as a whole or not at all.
-/
structure Operations.Lawful (ops : Operations) : Prop where
  fresh {w : World} {base : List String} {name : String} (h : ops.scratchName w base = .ok name) :
    w.files.entryAt? (base ++ [name]) = none
  front {w : World} {base : List String} {name : String} (h : ops.scratchName w base = .ok name) :
    ∃ s, name = "git-fetch-" ++ s
  clone (url : String) (place : List String) (w : World) :
    SameOutside place w.files (ops.clone url place w).2
  checkOut (r : Git.Repository) (hash : String) (place : List String) (w : World) :
    SameOutside place w.files (ops.checkOut r hash place w).2
  rename (source target : List String) (w : World) (h : w.files.entryAt? target = none) :
    (∃ e, ops.rename source target w = (.error e, w.files)) ∨
      (w.files.entryAt? source).isSome ∧
        ops.rename source target w = (.ok (), w.files.move source target)

/--
Checks a commit out in the scratch directory, which is then moved to a path, unless the path leads to
something already.
-/
def settleWith (ops : Operations) (r : Git.Repository) (hash : String) (scratch : List String)
    (path : String) : Task CacheError String := do
  let w ← get
  match w.files.find w.cwd path with
  | .entry .. => return hash
  | .vacant target =>
    Task.onFiles (ops.checkOut r hash scratch)
    Task.onFiles (ops.rename scratch target)
    return hash
  | .blocked cause =>
    Task.onFiles (ops.checkOut r hash scratch)
    throw (renameError scratch path cause)

/-- Puts the commit that `choose` picks together in a scratch directory and moves it to its place. -/
def installWith (ops : Operations) (url dir : String) (scratch : List String)
    (choose : Git.Repository → Except CacheError String) : Task CacheError String := do
  Task.report .debug "cloning prelude repository" [("git", .text url)]
  let repository ← Task.onFiles (ops.clone url scratch)
  let hash ← Task.orFail (choose repository) id
  settleWith ops repository hash scratch (Path.join dir hash)

/-- Makes sure that the commit that `choose` picks is in the cache, and returns its hash. -/
def ensureWith (ops : Operations) (url dir : String)
    (choose : Git.Repository → Except CacheError String) : Task CacheError String := do
  (Task.onFiles fun w => w.files.makeDirs w.cwd dir).adapt .directory
  let base ← place dir
  let name ← Task.orFail (ops.scratchName (← get) base) id
  claim (Path.join dir name)
  let scratch := base ++ [name]
  (installWith ops url dir scratch choose).cleanup (·.remove scratch)

theorem changesFiles_settleWith (ops : Operations) (r : Git.Repository) (hash : String)
    (scratch : List String) (path : String) : (settleWith ops r hash scratch path).ChangesFiles := by
  refine .bind .get fun w => ?_
  split
  · exact .pure hash
  · exact .bind (.onFiles _) fun _ => .bind (.onFiles _) fun _ => .pure hash
  · exact .bind (.onFiles _) fun _ => .throw _

theorem changesFiles_installWith (ops : Operations) (url dir : String) (scratch : List String)
    (choose : Git.Repository → Except CacheError String) :
    (installWith ops url dir scratch choose).ChangesFiles :=
  .bind (.report _ _ _) fun _ => .bind (.onFiles _) fun _ => .bind (.orFail _ _) fun _ =>
    changesFiles_settleWith ops _ _ _ _

theorem changesFiles_ensureWith (ops : Operations) (url dir : String)
    (choose : Git.Repository → Except CacheError String) :
    (ensureWith ops url dir choose).ChangesFiles :=
  .bind ((Task.ChangesFiles.onFiles _).adapt _) fun _ => .bind (changesFiles_place dir) fun _ =>
    .bind .get fun _ => .bind (.orFail _ _) fun _ => .bind (changesFiles_claim _) fun _ =>
      (changesFiles_installWith ops _ _ _ _).cleanup _

/-- The operations on repositories that are values. -/
def Operations.copying : Operations where
  scratchName w base := .ok (w.files.freshName base "git-fetch-")
  clone url place w :=
    match w.clone url with
    | .ok r => (.ok r, w.files.putDirs place)
    | .error e => (.error (.clone url e), w.files)
  checkOut r hash place w :=
    match w.git.files r hash with
    | some files => (.ok (), w.files.putFiles place files)
    | none => (.error (.noCommit hash), w.files)
  rename source target w :=
    if (w.files.entryAt? source).isSome then (.ok (), w.files.move source target)
    else (.error (.directory ⟨"rename", Path.ofSegments true source, .notExist⟩), w.files)

/-! ## The cache as an instance -/

@[simp] theorem Operations.scratchName_copying (w : World) (base : List String) :
    copying.scratchName w base = .ok (w.files.freshName base "git-fetch-") := rfl

theorem Operations.lawful_copying : Operations.copying.Lawful where
  fresh {w base name} h := by
    obtain ⟨-, -, hfresh⟩ := exists_freshName w.files base "git-fetch-"
    cases h
    exact hfresh
  front {w base name} h := by
    obtain ⟨n, hname, -⟩ := exists_freshName w.files base "git-fetch-"
    cases h
    exact ⟨toString n, hname⟩
  clone url place w := by
    simp only [copying]
    split
    · exact sameOutside_putDirs List.prefix_rfl List.prefix_rfl _
    · exact .refl _ _
  checkOut r hash place w := by
    simp only [copying]
    split
    · exact sameOutside_putFiles List.prefix_rfl _ _
    · exact .refl _ _
  rename source target w h := by
    simp only [copying]
    split_ifs with hsource
    · exact .inr ⟨hsource, rfl⟩
    · exact .inl ⟨_, rfl⟩

theorem isSome_entryAt?_putFiles (t : FileTree) (place : List String)
    (files : List (String × ByteArray)) : ((t.putFiles place files).entryAt? place).isSome := by
  have hdirs : ((t.putDirs place).entryAt? place).isSome := by simp [entryAt?_putDirs]
  unfold putFiles
  generalize t.putDirs place = t' at hdirs
  induction files generalizing t' with
  | nil => exact hdirs
  | cons file files ih =>
    refine ih _ (isSome_entryAt?_put ?_)
    rw [entryAt?_putDirs, Option.isSome_or, hdirs, Bool.true_or]

theorem checkOut_eq (r : Git.Repository) (hash : String) (scratch : List String) :
    checkOut r hash scratch = Task.onFiles (Operations.copying.checkOut r hash scratch) := by
  refine Task.ext fun w => ?_
  rw [outcome_checkOut, Task.outcome_onFiles]
  simp only [Operations.copying]
  cases w.git.files r hash <;> rfl

/-- Only what is in the scratch directory is moved from there. -/
theorem isSome_of_checkOut {r : Git.Repository} {hash : String} {scratch : List String}
    {w v : World} (h : (checkOut r hash scratch).outcome w = (.ok (), v)) :
    (v.files.entryAt? scratch).isSome := by
  rw [outcome_checkOut] at h
  split at h
  · cases (Prod.mk.inj h).1
  · obtain ⟨-, rfl⟩ := Prod.mk.inj h
    exact isSome_entryAt?_putFiles _ _ _

theorem settle_eq (r : Git.Repository) (hash : String) (scratch : List String) (path : String) :
    settle r hash scratch path = settleWith .copying r hash scratch path := by
  refine Task.ext fun w => ?_
  simp only [settle, settleWith, ← checkOut_eq, Task.outcome_bind, Task.outcome_get]
  cases w.files.find w.cwd path with
  | entry place e => rfl
  | vacant target =>
    simp only [Task.outcome_bind]
    rcases hout : (checkOut r hash scratch).outcome w with ⟨e | _, v⟩
    · rfl
    · simp [Operations.copying, isSome_of_checkOut hout]
  | blocked cause => rfl

theorem install_eq (url dir : String) (scratch : List String)
    (choose : Git.Repository → Except CacheError String) :
    install url dir scratch choose = installWith .copying url dir scratch choose := by
  refine Task.ext fun w => ?_
  simp only [install, installWith, settle_eq, Operations.copying, Task.outcome_bind,
    Task.outcome_report, Task.outcome_get, Task.outcome_orFail, Task.outcome_edit,
    Task.outcome_onFiles]
  cases w.clone url <;> rfl

/-- The cache works with repositories that are values. -/
theorem ensure_eq (url dir : String) (choose : Git.Repository → Except CacheError String) :
    ensure url dir choose = ensureWith .copying url dir choose := by
  simp only [ensure, ensureWith, install_eq, Operations.scratchName_copying]
  rfl

theorem ensureWith_copying : ensureWith .copying = ensure := by
  funext url dir choose
  exact (ensure_eq url dir choose).symm

end Cache

end Scriptlet
