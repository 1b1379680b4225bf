import Scriptlet.Project
import Scriptlet.Proofs.Cache.Creation
import Scriptlet.Proofs.Files.Inside
import Scriptlet.Proofs.Text.Encoding

/-!
# Checksums of preludes

A lockfile can record the checksum of the file of a prelude. The file is found again by the repository,
the commit and the path in it, and these are the same when it is fetched, when it is checked and when
it is read. So whatever is in the cache, and in whatever way a commit gets there, only a file with the
checksum that was recorded is loaded.

If the file is there with another checksum then nothing is copied, because its checkout is there as
well. That need not be so for a file that is not inside of its checkout; such a file is refused after
the copy.

## Main definitions

* `Cache.Keeper`: a way to make sure that a commit is in the cache
* `Cache.checkoutBy`, `Cache.fetchBy`, `Project.loadBy`: the functions of the cache, for any such way
* `Cache.HasCheckout`: the directory of a commit is there

## Main statements

* `Cache.hasCheckout_of_read`: a file inside of a checkout can only be read if the checkout is there
* `Cache.hasCheckout_of_fetchBy`: what was fetched has its checkout
* `Cache.fetchBy_spec`, `Project.loadBy_spec`: what was fetched and what is loaded has its checksum
* `Project.exists_loadBy_of_mismatch`: a file with another checksum is not loaded
* `Project.load_guarded`: preludes that are loaded, refused and checked out
-/

namespace Scriptlet

theorem Task.of_outcome_adapt {ε δ α : Type} {x : Task δ α} {f : δ → ε} {a : α} {w w' : World}
    (h : Task.outcome (x.adapt f) w = (.ok a, w')) : x.outcome w = (.ok a, w') := by
  rw [outcome_adapt] at h
  obtain ⟨ha, hw⟩ := Prod.mk.inj h
  exact Prod.ext (eq_ok_of_mapError ha) hw

namespace Cache

/-- What makes sure that a commit of a repository is in the cache, and returns its hash. -/
abbrev Keeper : Type :=
  String → String → (Git.Repository → Except CacheError String) → Task CacheError String

/-- The path of a prelude that is in the cache; its file has the checksum that was recorded, if any. -/
def verified (home : String) (s : LockedSource) : Task CacheError String := do
  let path := sourcePath home s
  if s.checksum != "" then
    let sum ← Task.orFail (checksum (← get) path) CacheError.file
    if sum != s.checksum then throw (.mismatch path)
  return path

/-- The path of a prelude that is resolved, with commits that are kept in the given way. -/
def checkoutBy (keep : Keeper) (home : String) (s : LockedSource) : Task CacheError String := do
  if s.commit = "" then throw .noLockedCommit
  let dir := repositoryDir home s.git
  let w ← get
  if (w.files.isDirectory? w.cwd (Path.join dir s.commit)).isNone then
    discard <| keep s.git dir fun _ => .ok (w.git.hash s.commit)
  verified home s

/-- Picks the first revision of a prelude that a repository has. -/
def pick (git : Git.Library) (p : Prelude) (r : Git.Repository) : Except CacheError String :=
  (firstRevision git r p.revisions).mapError (.revision p.reference)

/-- Resolves a prelude to a commit, which is kept in the given way. -/
def fetchBy (keep : Keeper) (home : String) : Fetcher := fun p => do
  unless p.isGit do throw (.notGit (some p))
  if p.revisions.isEmpty then throw (.noPin p)
  let git := (← get).git
  let commit ← keep p.git (repositoryDir home p.git) (pick git p)
  let s : LockedSource := { git := p.git, ref := p.reference, commit, file := p.file }
  let sum ← Task.orFail (checksum (← get) (sourcePath home s)) (CacheError.source p)
  Task.report .info "fetched prelude"
    [("git", .text s.git), ("ref", .text s.ref), ("commit", .text s.commit), ("file", .text s.file)]
  return { s with checksum := sum }

theorem checkoutBy_ensure : checkoutBy ensure = checkout := rfl

theorem fetchBy_ensure : fetchBy ensure = fetch := rfl

end Cache

namespace Project

/-- The script of a prelude, with commits that are kept in the given way. -/
def loadBy (keep : Cache.Keeper) (project : Project) (p : Prelude) : Task SourceError Source := do
  if !p.isGit then
    let path := project.manifest.resolve p.path
    Task.report .debug "loading prelude" [("path", .text path)]
    Task.orFail (Source.read (← get) path) id
  else match project.home with
    | none => throw (.noCache p)
    | some home =>
      match project.locked? p with
      | some s =>
        let path ← (Cache.checkoutBy keep home s).adapt (.locked p)
        readCached p path
      | none =>
        Task.report .warn
          "prelude not in lockfile, resolving live; run `wistful fetch` to pin it"
          [("prelude", .text p.describe), ("lockfile", .text Manifest.lockfileName)]
        let s ← (Cache.fetchBy keep home p).adapt .fetch
        readCached p (Cache.sourcePath home s)

theorem loadBy_ensure : loadBy Cache.ensure = load := rfl

end Project

namespace Cache

variable {keep keep' : Keeper} {home path : String} {p : Prelude} {s : LockedSource} {w w' v : World}
  {bytes : ByteArray}

/-- The directory of the commit is there. -/
def HasCheckout (w : World) (home : String) (s : LockedSource) : Prop :=
  (w.files.isDirectory? w.cwd (Path.join (repositoryDir home s.git) s.commit)).isSome

theorem outcome_verified : (verified home s).outcome w =
    if s.checksum = "" then (.ok (sourcePath home s), w)
    else match w.read (sourcePath home s) with
      | .ok bytes =>
        if Sha256.hex bytes = s.checksum then (.ok (sourcePath home s), w)
        else (.error (.mismatch (sourcePath home s)), w)
      | .error e => (.error (.file e), w) := by
  simp only [verified]
  by_cases hempty : s.checksum = ""
  · simp [hempty]
  · cases hread : w.read (sourcePath home s) with
    | error e => simp [hempty, checksum, hread, Task.outcome_bind, Except.map, Except.mapError]
    | ok bytes =>
      by_cases hsum : Sha256.hex bytes = s.checksum
      · simp [hempty, checksum, hread, Task.outcome_bind, Except.map, Except.mapError, hsum]
      · simp [hempty, checksum, hread, Task.outcome_bind, Except.map, Except.mapError, hsum]

theorem verified_of_mismatch (hsum : s.checksum ≠ "")
    (hread : w.read (sourcePath home s) = .ok bytes) (hhex : Sha256.hex bytes ≠ s.checksum) :
    (verified home s).outcome w = (.error (.mismatch (sourcePath home s)), w) := by
  simp [outcome_verified, hsum, hread, hhex]

theorem outcome_checkoutBy (hcommit : s.commit ≠ "") (h : HasCheckout w home s) :
    (checkoutBy keep home s).outcome w = (verified home s).outcome w := by
  have hthere : (w.files.isDirectory? w.cwd
      (Path.join (repositoryDir home s.git) s.commit)).isNone = false := by
    simpa [HasCheckout] using h
  simp only [checkoutBy, if_neg hcommit, Task.outcome_bind, Task.outcome_get, hthere]
  rfl

/-- A checkout that is missing is made first. -/
theorem outcome_checkoutBy_of_missing (hcommit : s.commit ≠ "") (h : ¬ HasCheckout w home s) :
    (checkoutBy keep home s).outcome w =
      match (keep s.git (repositoryDir home s.git) fun _ => .ok (w.git.hash s.commit)).outcome w with
      | (.ok _, v) => (verified home s).outcome v
      | (.error e, v) => (.error e, v) := by
  have hmissing : (w.files.isDirectory? w.cwd
      (Path.join (repositoryDir home s.git) s.commit)).isNone = true := by
    simpa [HasCheckout] using h
  simp only [checkoutBy, if_neg hcommit, Task.outcome_bind, Task.outcome_get, hmissing, if_true,
    Task.outcome_discard]
  rcases (keep s.git (repositoryDir home s.git) fun _ => .ok (w.git.hash s.commit)).outcome w
    with ⟨e | hash, v⟩
  · rfl
  · rfl

theorem exists_verified_of_checkoutBy (h : (checkoutBy keep home s).outcome w = (.ok path, w')) :
    ∃ v, (verified home s).outcome v = (.ok path, w') := by
  simp only [checkoutBy] at h
  split_ifs at h with hcommit
  · cases (Prod.mk.inj h).1
  · obtain ⟨v, v₁, hv, h⟩ := Task.exists_of_outcome_bind h
    split_ifs at h with hnone
    · obtain ⟨x, v₂, hx, h⟩ := Task.exists_of_outcome_bind h
      exact ⟨v₂, h⟩
    · exact ⟨v₁, h⟩

theorem verified_spec (h : (verified home s).outcome w = (.ok path, w')) :
    path = sourcePath home s ∧ w' = w ∧
      (s.checksum ≠ "" → ∃ bytes, w.read path = .ok bytes ∧ Sha256.hex bytes = s.checksum) := by
  rw [outcome_verified] at h
  split_ifs at h with hempty
  · obtain ⟨hpath, rfl⟩ := Prod.mk.inj h
    exact ⟨(Except.ok.inj hpath).symm, rfl, fun hne => absurd hempty hne⟩
  · split at h
    · next bytes hread =>
      split_ifs at h with hsum
      · obtain ⟨hpath, rfl⟩ := Prod.mk.inj h
        obtain rfl := Except.ok.inj hpath
        exact ⟨rfl, rfl, fun _ => ⟨bytes, hread, hsum⟩⟩
      · cases (Prod.mk.inj h).1
    · cases (Prod.mk.inj h).1

theorem exists_of_checksum {sum : String} (h : checksum w path = .ok sum) :
    ∃ bytes, w.read path = .ok bytes ∧ Sha256.hex bytes = sum := by
  unfold checksum at h
  cases hread : w.read path with
  | error e => simp [hread, Except.map] at h
  | ok bytes =>
    rw [hread] at h
    exact ⟨bytes, rfl, Except.ok.inj h⟩

/-- What is fetched was kept, and the checksum of its file was taken. -/
theorem fetchBy_spec (h : (fetchBy keep home p).outcome w = (.ok s, w')) :
    (∃ v, (keep p.git (repositoryDir home p.git) (pick w.git p)).outcome w = (.ok s.commit, v) ∧
        w'.files = v.files ∧ w'.cwd = v.cwd ∧ s.git = p.git) ∧
      ∃ bytes, w'.read (sourcePath home s) = .ok bytes ∧ Sha256.hex bytes = s.checksum := by
  unfold fetchBy at h
  cases hgit : p.isGit with
  | false => simp [hgit] at h
  | true =>
    cases hpin : p.revisions.isEmpty with
    | true => simp [hgit, hpin] at h
    | false =>
      simp only [hgit, hpin, Bool.false_eq_true, if_false, if_true] at h
      obtain ⟨v, w₁, hv, hkeep⟩ := Task.exists_of_outcome_bind h
      obtain ⟨commit, w₂, hkept, hrest⟩ := Task.exists_of_outcome_bind hkeep
      obtain ⟨v', w₃, hv', hread⟩ := Task.exists_of_outcome_bind hrest
      obtain ⟨sum, w₄, hsum, hreport⟩ := Task.exists_of_outcome_bind hread
      obtain ⟨⟨⟩, rfl⟩ := Prod.mk.inj hv
      obtain ⟨⟨⟩, rfl⟩ := Prod.mk.inj hv'
      obtain ⟨hsum, rfl⟩ := Task.of_outcome_orFail hsum
      obtain ⟨⟨⟩, rfl⟩ := Prod.mk.inj hreport
      exact ⟨⟨_, hkept, rfl, rfl, rfl⟩, exists_of_checksum hsum⟩

/-- If a file is inside of its checkout and can be read, then its checkout is there. -/
theorem hasCheckout_of_read (hcommit : s.commit ≠ "") (hfile : Path.StaysInside s.file)
    (hread : w.read (sourcePath home s) = .ok bytes) : HasCheckout w home s := by
  obtain ⟨place, hfind⟩ := FileTree.read_eq_ok_iff.mp hread
  exact FileTree.isSome_isDirectory?_iff.mpr (FileTree.exists_find_of_join
    (Path.clean_join _ hcommit) (Path.join_ne_empty_of_right _ hcommit) hfile hfind)

/-- What was fetched by any operations is found again. -/
theorem hasCheckout_of_fetchBy {ops : Operations} (hops : ops.Lawful) (htree : w.files.IsTree)
    (hc : Path.isAbsolute w.cwd)
    (hhash : ∀ hash, Chosen ops p.git (pick w.git p) w hash → Git.IsHash hash)
    (h : (fetchBy (ensureWith ops) home p).outcome w = (.ok s, w')) : HasCheckout w' home s := by
  obtain ⟨⟨v, hkept, hfiles, hcwd, hgit⟩, -⟩ := fetchBy_spec h
  obtain ⟨_, _, rfl⟩ := (changesFiles_ensureWith _ _ _ _).exists_eq hkept
  have hdir : Path.clean (repositoryDir home p.git) = repositoryDir home p.git :=
    Path.clean_join _ (segment_ne_empty p.git)
  have hfind := find_of_ensureWith hops htree hc hhash hdir hkept
  rw [HasCheckout, hfiles, hcwd, hgit]
  exact FileTree.isSome_isDirectory?_iff.mpr hfind

/-- What was fetched is checked out again as long as it is there and its file stays the same. -/
theorem checkoutBy_of_fetchBy (h : (fetchBy keep home p).outcome w = (.ok s, w'))
    (hcommit : s.commit ≠ "") (hread : v.read (sourcePath home s) = w'.read (sourcePath home s))
    (hdir : HasCheckout v home s) :
    (checkoutBy keep' home s).outcome v = (.ok (sourcePath home s), v) := by
  obtain ⟨-, bytes, hbytes, hhex⟩ := fetchBy_spec h
  rw [outcome_checkoutBy hcommit hdir, outcome_verified, hread, hbytes]
  simp [hhex]

end Cache

namespace Project

variable {keep : Cache.Keeper} {project : Project} {p : Prelude} {home path : String}
  {s : LockedSource} {w w' : World} {bytes : ByteArray}

theorem isGit_of_locked? (h : project.locked? p = some s) : p.isGit := by
  obtain ⟨l, -, hl⟩ := Option.bind_eq_some_iff.mp h
  by_contra hgit
  simp [Lockfile.find?, hgit] at hl

theorem loadBy_of_locked? (hhome : project.home = some home) (hs : project.locked? p = some s) :
    project.loadBy keep p = (Cache.checkoutBy keep home s).adapt (.locked p) >>= readCached p := by
  simp [loadBy, isGit_of_locked? hs, hhome, hs]

theorem outcome_readCached (h : w.read path = .ok bytes) :
    (readCached p path).outcome w = (.ok ⟨p.describe, Text.ofBytes bytes⟩, w) := by
  simp [readCached, Source.read, h, Task.outcome_bind, Task.outcome_map, Except.mapError, Except.map]

/-- A source that is loaded from the cache has the checksum that is recorded. -/
theorem loadBy_spec {source : Source} (hs : project.locked? p = some s) (hsum : s.checksum ≠ "")
    (h : (project.loadBy keep p).outcome w = (.ok source, w')) :
    ∃ home bytes, project.home = some home ∧ w'.read (Cache.sourcePath home s) = .ok bytes ∧
      Sha256.hex bytes = s.checksum ∧ source = ⟨p.describe, Text.ofBytes bytes⟩ := by
  cases hhome : project.home with
  | none => simp [loadBy, isGit_of_locked? hs, hhome] at h
  | some home =>
    rw [loadBy_of_locked? hhome hs] at h
    obtain ⟨path, v, hpath, h⟩ := Task.exists_of_outcome_bind h
    obtain ⟨x, hverified⟩ := Cache.exists_verified_of_checkoutBy (Task.of_outcome_adapt hpath)
    obtain ⟨rfl, rfl, hbytes⟩ := Cache.verified_spec hverified
    obtain ⟨bytes, hread, hhex⟩ := hbytes hsum
    rw [outcome_readCached hread] at h
    obtain ⟨hsource, rfl⟩ := Prod.mk.inj h
    exact ⟨home, bytes, rfl, hread, hhex, (Except.ok.inj hsource).symm⟩

/-- A file in the cache that has another checksum is not loaded. -/
theorem loadBy_of_mismatch (hhome : project.home = some home)
    (hs : project.locked? p = some s) (hcommit : s.commit ≠ "") (hsum : s.checksum ≠ "")
    (hdir : Cache.HasCheckout w home s) (hread : w.read (Cache.sourcePath home s) = .ok bytes)
    (hhex : Sha256.hex bytes ≠ s.checksum) : (project.loadBy keep p).outcome w =
      (.error (.locked p (.mismatch (Cache.sourcePath home s))), w) := by
  rw [loadBy_of_locked? hhome hs, Task.outcome_bind, Task.outcome_adapt,
    Cache.outcome_checkoutBy hcommit hdir, Cache.verified_of_mismatch hsum hread hhex]
  rfl

/-- Also if its checkout is missing, a file that has another checksum is not loaded. -/
theorem exists_loadBy_of_mismatch {ops : Cache.Operations} (hops : ops.Lawful)
    (htree : w.files.IsTree) (hc : Path.isAbsolute w.cwd) (hhash : Git.IsHash (w.git.hash s.commit))
    (hhome : project.home = some home) (hs : project.locked? p = some s) (hcommit : s.commit ≠ "")
    (hsum : s.checksum ≠ "") (hread : w.read (Cache.sourcePath home s) = .ok bytes)
    (hhex : Sha256.hex bytes ≠ s.checksum) :
    ∃ e w', (project.loadBy (Cache.ensureWith ops) p).outcome w = (.error (.locked p e), w') ∧
      (e = .mismatch (Cache.sourcePath home s) ∨ ¬ Cache.HasCheckout w home s ∧
        (Cache.ensureWith ops s.git (Cache.repositoryDir home s.git)
          fun _ => .ok (w.git.hash s.commit)).outcome w = (.error e, w')) := by
  by_cases hdir : Cache.HasCheckout w home s
  · exact ⟨_, w, loadBy_of_mismatch hhome hs hcommit hsum hdir hread hhex, .inl rfl⟩
  rw [loadBy_of_locked? hhome hs, Task.outcome_bind, Task.outcome_adapt,
    Cache.outcome_checkoutBy_of_missing hcommit hdir]
  rcases hrun : (Cache.ensureWith ops s.git (Cache.repositoryDir home s.git)
    fun _ => .ok (w.git.hash s.commit)).outcome w with ⟨e | hash, v⟩
  · exact ⟨e, v, rfl, .inr ⟨hdir, rfl⟩⟩
  · -- The file was there before, so it is the same one afterwards.
    have hchosen (hash : String) (h : Cache.Chosen ops s.git (fun _ => .ok (w.git.hash s.commit)) w
        hash) : Git.IsHash hash := by
      obtain ⟨_, _, _, _, _, -, hchoose⟩ := h
      exact Except.ok.inj hchoose ▸ hhash
    have hkept := Cache.keeps_ensureWith hops htree hc hchosen hrun
    obtain ⟨_, _, rfl⟩ := (Cache.changesFiles_ensureWith _ _ _ _).exists_eq hrun
    simp only [Cache.verified_of_mismatch hsum (hkept.read hread) hhex]
    exact ⟨_, _, rfl, .inl rfl⟩

/--
However commits get into the cache, a prelude that is loaded by an entry of the lockfile has the
checksum of that entry. If its file has another one then nothing is loaded, and the error says so;
nothing is copied for that. Only if the file is not inside of its checkout, and that is missing, a copy
is made first; nothing is loaded then either, and the error says so or is that of the copy. What was
fetched can be checked out without copying anything, as long as its file stays the same and its checkout
is found; and both are so if it was fetched by any operations and nothing that was there is gone.
-/
theorem load_guarded (keep : Cache.Keeper) :
    (∀ (project : Project) (p : Prelude) (s : LockedSource) (w w' : World) (source : Source),
      project.locked? p = some s → s.checksum ≠ "" →
      (project.loadBy keep p).outcome w = (.ok source, w') →
      ∃ home bytes, project.home = some home ∧ w'.read (Cache.sourcePath home s) = .ok bytes ∧
        Sha256.hex bytes = s.checksum ∧ source = ⟨p.describe, Text.ofBytes bytes⟩ ∧
        (Text.isUtf8 bytes.data.toList → Sha256.hex source.text.toUTF8 = s.checksum)) ∧
    (∀ (project : Project) (p : Prelude) (s : LockedSource) (home : String) (w : World)
      (bytes : ByteArray), project.home = some home → project.locked? p = some s → s.commit ≠ "" →
      s.checksum ≠ "" → (Path.StaysInside s.file ∨ Cache.HasCheckout w home s) →
      w.read (Cache.sourcePath home s) = .ok bytes → Sha256.hex bytes ≠ s.checksum →
      (project.loadBy keep p).outcome w =
        (.error (.locked p (.mismatch (Cache.sourcePath home s))), w)) ∧
    (∀ (ops : Cache.Operations) (project : Project) (p : Prelude) (s : LockedSource) (home : String)
      (w : World) (bytes : ByteArray), ops.Lawful → w.files.IsTree → Path.isAbsolute w.cwd →
      Git.IsHash (w.git.hash s.commit) → project.home = some home → project.locked? p = some s →
      s.commit ≠ "" → s.checksum ≠ "" → w.read (Cache.sourcePath home s) = .ok bytes →
      Sha256.hex bytes ≠ s.checksum →
      ∃ e w', (project.loadBy (Cache.ensureWith ops) p).outcome w = (.error (.locked p e), w') ∧
        (e = .mismatch (Cache.sourcePath home s) ∨ ¬ Cache.HasCheckout w home s ∧
          (Cache.ensureWith ops s.git (Cache.repositoryDir home s.git)
            fun _ => .ok (w.git.hash s.commit)).outcome w = (.error e, w'))) ∧
    (∀ (home : String) (p : Prelude) (s : LockedSource) (w w' v : World),
      (Cache.fetchBy keep home p).outcome w = (.ok s, w') → s.commit ≠ "" →
      v.read (Cache.sourcePath home s) = w'.read (Cache.sourcePath home s) →
      (Path.StaysInside s.file ∨ Cache.HasCheckout v home s) →
      ∀ keep', (Cache.checkoutBy keep' home s).outcome v = (.ok (Cache.sourcePath home s), v)) ∧
    (∀ (ops : Cache.Operations) (home : String) (p : Prelude) (s : LockedSource) (w w' : World),
      ops.Lawful → w.files.IsTree → Path.isAbsolute w.cwd →
      (∀ hash, Cache.Chosen ops p.git (Cache.pick w.git p) w hash → Git.IsHash hash) →
      (Cache.fetchBy (Cache.ensureWith ops) home p).outcome w = (.ok s, w') →
      Git.IsHash s.commit ∧ (w'.files.entryAt? (Path.cleanSegments
        (Path.absolute w.cwd (Cache.repositoryDir home p.git)) ++ [s.commit])).isSome ∧
      Cache.HasCheckout w' home s ∧
      ∀ v : World, v.cwd = w'.cwd → w'.files.Keeps v.files → ∀ keep',
        (Cache.checkoutBy keep' home s).outcome v = (.ok (Cache.sourcePath home s), v)) ∧
    loadBy Cache.ensure = load ∧ Cache.fetchBy Cache.ensure = Cache.fetch ∧
    Cache.checkoutBy Cache.ensure = Cache.checkout ∧ Cache.ensureWith .copying = Cache.ensure := by
  refine ⟨?loaded, ?refused, ?missing, ?fetched, ?kept, loadBy_ensure, Cache.fetchBy_ensure,
    Cache.checkoutBy_ensure, Cache.ensureWith_copying⟩
  case loaded =>
    intro project p s w w' source hs hsum h
    obtain ⟨home, bytes, hhome, hread, hhex, rfl⟩ := loadBy_spec hs hsum h
    refine ⟨home, bytes, hhome, hread, hhex, rfl, fun hutf8 => ?_⟩
    rw [Text.toUTF8_ofBytes hutf8, hhex]
  case refused =>
    intro project p s home w bytes hhome hs hcommit hsum hdir hread hhex
    have hthere : Cache.HasCheckout w home s :=
      hdir.elim (fun hfile => Cache.hasCheckout_of_read hcommit hfile hread) id
    exact loadBy_of_mismatch hhome hs hcommit hsum hthere hread hhex
  case missing =>
    intro ops project p s home w bytes hops htree hc hhash hhome hs hcommit hsum hread hhex
    exact exists_loadBy_of_mismatch hops htree hc hhash hhome hs hcommit hsum hread hhex
  case fetched =>
    intro home p s w w' v h hcommit hread hdir keep'
    obtain ⟨-, bytes, hbytes, -⟩ := Cache.fetchBy_spec h
    have hthere : Cache.HasCheckout v home s :=
      hdir.elim (fun hfile => Cache.hasCheckout_of_read hcommit hfile (hread.trans hbytes)) id
    exact Cache.checkoutBy_of_fetchBy h hcommit hread hthere
  case kept =>
    intro ops home p s w w' hops htree hc hhash h
    obtain ⟨⟨v, hkept, hfiles, -⟩, bytes, hbytes, -⟩ := Cache.fetchBy_spec h
    have hdir := Cache.hasCheckout_of_fetchBy hops htree hc hhash h
    obtain ⟨hcommit, hthere⟩ := Cache.isSome_of_ensureWith hops htree hc hhash hkept
    refine ⟨hcommit, hfiles ▸ hthere, hdir, fun v hcwd hv keep' => ?_⟩
    have hread : v.read (Cache.sourcePath home s) = w'.read (Cache.sourcePath home s) := by
      rw [hbytes, World.read, hcwd]
      exact hv.read hbytes
    have hdir' : Cache.HasCheckout v home s := by
      rw [Cache.HasCheckout, hcwd]
      exact hv.isDirectory? hdir
    exact Cache.checkoutBy_of_fetchBy h hcommit.isName.ne_empty hread hdir'

/-! ## Preludes that are locked -/

namespace Locked

/-- The hash of the only commit of the repository. -/
def hash : String := "0123456789abcdef0123456789abcdef01234567"

/-- A project with one entry for a prelude. -/
def recorded (s : LockedSource) : Project where
  manifest := {}
  lockfile := some { sources := [some s] }
  home := some "/h"

def tagged : Prelude := { git := "r", tag := "v", file := "f" }

/-- The entry of a prelude whose file is the text `a`. -/
def entry : LockedSource where
  git := "r"
  ref := "tag:v"
  commit := hash
  file := "f"
  checksum := "ca978112ca1bbdcafac231b39a23dc4da786eff8147c4e72b9807785afee48bb"

/-- There is a repository, and nothing in the cache. -/
def fresh : World where
  cwd := "/"
  clone _ := (({} : Git.Repository).commit hash [("f", "a".toUTF8)] ["v"] []).clone

/-- The file in the cache has changed. -/
def changed : World where
  cwd := "/"
  files := ({} : FileTree).putFile ["h", "git", "r", hash, "f"] "b".toUTF8

/-- A prelude whose file is not in its repository, but beside it. -/
def beside : Prelude := { git := "r", rev := "v", file := "../d/f.wf" }

def besideEntry : LockedSource where
  git := "r"
  ref := "rev:v"
  commit := "c"
  file := "../d/f.wf"
  checksum := "00"

/-- The file beside the repository is there, but there is no repository. -/
def missing : World where
  cwd := "/"
  files := ({} : FileTree).putFile ["h", "git", "r", "d", "f.wf"] "1".toUTF8

end Locked

open Locked in
/--
A prelude is loaded, its file is another one, and it is checked out after it was fetched. Another one is
not loaded from a file beside its repository.
-/
theorem load_guarded_tagged :
    (recorded entry).home = some "/h" ∧ (recorded entry).locked? tagged = some entry ∧
      entry.commit ≠ "" ∧ entry.checksum ≠ "" ∧ Path.StaysInside entry.file ∧
      changed.read (Cache.sourcePath "/h" entry) = .ok "b".toUTF8 ∧
      Sha256.hex "b".toUTF8 ≠ entry.checksum ∧
      (∃ w' home bytes,
        ((recorded entry).load tagged).outcome fresh = (.ok ⟨tagged.describe, "a"⟩, w') ∧
        (recorded entry).home = some home ∧ w'.read (Cache.sourcePath home entry) = .ok bytes ∧
        Sha256.hex bytes = entry.checksum) ∧
      ((recorded entry).load tagged).outcome changed =
        (.error (.locked tagged (.mismatch (Cache.sourcePath "/h" entry))), changed) ∧
      fresh.files.IsTree ∧
      (∀ c, Cache.Chosen .copying "r" (Cache.pick fresh.git tagged) fresh c → Git.IsHash c) ∧
      ∃ w', (Cache.fetch "/h" tagged).outcome fresh = (.ok entry, w') ∧
        (w'.files.entryAt? ["h", "git", "r", hash]).isSome ∧
        (Cache.checkout "/h" entry).outcome w' = (.ok (Cache.sourcePath "/h" entry), w') ∧
        (recorded besideEntry).locked? beside = some besideEntry ∧
        missing.read (Cache.sourcePath "/h" besideEntry) = .ok "1".toUTF8 ∧
        Sha256.hex "1".toUTF8 ≠ besideEntry.checksum ∧ missing.files.IsTree ∧
        ∃ e w', ((recorded besideEntry).load beside).outcome missing = (.error (.locked beside e), w') := by
  obtain ⟨loaded, refused, refusedBy, fetched, kept, -, -, -, hcopying⟩ := load_guarded Cache.ensure
  have hlocked : (recorded entry).locked? tagged = some entry := by decide +kernel
  have hcommit : entry.commit ≠ "" := by decide +kernel
  have hsum : entry.checksum ≠ "" := by decide +kernel
  have hfile : Path.StaysInside entry.file := by decide +kernel
  have hread : changed.read (Cache.sourcePath "/h" entry) = .ok "b".toUTF8 := by decide +kernel
  have hhex : Sha256.hex "b".toUTF8 ≠ entry.checksum := by decide +kernel
  have hload := Task.eq_of_toOption (x := ((recorded entry).load tagged).outcome fresh)
    (a := ⟨tagged.describe, "a"⟩) (by decide +kernel)
  have hfetch := Task.eq_of_toOption (x := (Cache.fetch "/h" tagged).outcome fresh) (a := entry)
    (by decide +kernel)
  have htree : fresh.files.IsTree := by decide
  have hhash (c : String) (h : Cache.Chosen .copying "r" (Cache.pick fresh.git tagged) fresh c) :
      Git.IsHash c := by
    obtain ⟨r, _, _, _, _, hclone, hpick⟩ := h
    obtain ⟨_, -, hresolve⟩ := Cache.exists_of_firstRevision (Task.eq_ok_of_mapError hpick)
    obtain ⟨d, hd, rfl⟩ := Git.Repository.exists_of_resolve hresolve
    cases hclone
    obtain rfl := List.mem_singleton.mp hd
    exact ⟨by decide, by decide⟩
  obtain ⟨-, hthere, -, hagain⟩ := kept .copying "/h" tagged entry fresh _
    Cache.Operations.lawful_copying htree (by decide) hhash (by rw [hcopying]; exact hfetch)
  have hbeside : (recorded besideEntry).locked? beside = some besideEntry := by decide +kernel
  have hfound : missing.read (Cache.sourcePath "/h" besideEntry) = .ok "1".toUTF8 := by decide +kernel
  have hother : Sha256.hex "1".toUTF8 ≠ besideEntry.checksum := by decide +kernel
  have hmissing : missing.files.IsTree := by decide +kernel
  obtain ⟨e, left, hrefused, -⟩ := refusedBy .copying (recorded besideEntry) beside besideEntry "/h"
    missing _ Cache.Operations.lawful_copying hmissing (by decide) (Git.isHash_hashOfText _) rfl hbeside
    (by decide) (by decide) hfound hother
  rw [hcopying] at hrefused
  obtain ⟨home, bytes, hhome, hbytes, hsame, -⟩ := loaded _ _ _ _ _ _ hlocked hsum hload
  exact ⟨rfl, hlocked, hcommit, hsum, hfile, hread, hhex,
    ⟨_, home, bytes, hload, hhome, hbytes, hsame⟩,
    refused _ _ _ _ _ _ rfl hlocked hcommit hsum (.inl hfile) hread hhex,
    htree, hhash, _, hfetch, hthere, hagain _ rfl (.refl _) Cache.ensure, hbeside, hfound, hother,
    hmissing, e, left, hrefused⟩

open Locked in
/-- The file is there and has another checksum, but the error is that there is no repository. -/
theorem load_guarded_beside :
    (recorded besideEntry).home = some "/h" ∧
      (recorded besideEntry).locked? beside = some besideEntry ∧ besideEntry.commit ≠ "" ∧
      besideEntry.checksum ≠ "" ∧
      missing.read (Cache.sourcePath "/h" besideEntry) = .ok "1".toUTF8 ∧
      Sha256.hex "1".toUTF8 ≠ besideEntry.checksum ∧
      (((recorded besideEntry).load beside).outcome missing).1 =
        .error (.locked beside (.clone "r" .notFound)) ∧
      ∀ path, (((recorded besideEntry).load beside).outcome missing).1 ≠
        .error (.locked beside (.mismatch path)) := by
  have hload : (((recorded besideEntry).load beside).outcome missing).1 =
      .error (.locked beside (.clone "r" .notFound)) := by rfl
  refine ⟨rfl, by decide +kernel, by decide, by decide, by decide +kernel, by decide +kernel, hload,
    fun path h => ?_⟩
  cases hload.symm.trans h

end Project

end Scriptlet
