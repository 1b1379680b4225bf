import Scriptlet.Project
import Scriptlet.Proofs.Cache
import Scriptlet.Proofs.Lockfile
import Scriptlet.Proofs.Manifest

/-!
# Fetching pins preludes

After the preludes of a project were fetched and the lockfile was written, the lockfile is found
again and has for every prelude the entry that was fetched last for its key. So loading such a prelude
never resolves it anew. What the lockfile has for other keys stays as it was.

Of what fetches a prelude only this is asked: the entry has the key of the prelude, and its commit and
its checksum are hexadecimal, so that trimming does not change them. Fetching into the cache is like
that if repositories resolve revisions to hexadecimal hashes. That the text of the lockfile is read
back as the lockfile that was written is taken as given, in whatever format it is.

## Main definitions

* `Project.Pins`: what is asked of what fetches a prelude
* `Project.HexHashes`: revisions are resolved to hexadecimal hashes
* `Project.Fetches`: preludes that are fetched one after the other

## Main statements

* `Project.pins_fetch`: what fetches into the cache is like that
* `Project.exists_of_fetchEach`: what fetching preludes puts into a lockfile
* `Lockfile.lookup_foldl_put`: the last entry that is put counts
* `Project.findLockfile_of_fetchAll`: what is found in the lockfile that was written
-/

namespace Scriptlet

namespace Lockfile

variable {l : Lockfile} {entries : List LockedSource} {key : String × String × String}

/-- The last entry that is put counts. -/
theorem lookup_foldl_put (l : Lockfile) (entries : List LockedSource)
    (key : String × String × String) :
    (entries.foldl put l).lookup key =
      (entries.reverse.find? (·.key == key)).or (l.lookup key) := by
  induction entries generalizing l with
  | nil => simp
  | cons s rest ih =>
    rw [List.foldl_cons, ih, List.reverse_cons, List.find?_append, Option.or_assoc]
    congr 1
    by_cases h : s.key = key
    · subst h
      simp
    · rw [lookup_put_of_ne l (Ne.symm h)]
      simp [h]

theorem IsTrimmed.foldl_put (h : l.IsTrimmed) (hs : ∀ s ∈ entries, s.trimmed = s) :
    (entries.foldl Lockfile.put l).IsTrimmed := by
  induction entries generalizing l with
  | nil => exact h
  | cons s rest ih =>
    rw [List.forall_mem_cons] at hs
    exact ih (h.put hs.1) hs.2

@[simp] theorem project_foldl_put (l : Lockfile) (entries : List LockedSource) :
    (entries.foldl put l).project = l.project := by
  induction entries generalizing l with
  | nil => rfl
  | cons s rest ih => exact ih (l.put s)

end Lockfile

namespace Project

variable {home : String} {m : Manifest} {l l' : Lockfile} {w w' : World} {preludes : List Prelude}
  {fetched : List LockedSource} {fetch : Cache.Fetcher} {I : World → Prop}

/--
What is asked of what fetches a prelude, in a world with a property that it keeps: an entry for the
prelude, with the hashes of a commit and of a file.
-/
structure Pins (I : World → Prop) (fetch : Cache.Fetcher) : Prop where
  keeps {p : Prelude} {w w' : World} {s : LockedSource} (hw : I w)
    (h : (fetch p).outcome w = (.ok s, w')) : I w'
  key {p : Prelude} {w w' : World} {s : LockedSource} (hw : I w)
    (h : (fetch p).outcome w = (.ok s, w')) : s.key = p.key
  commit {p : Prelude} {w w' : World} {s : LockedSource} (hw : I w)
    (h : (fetch p).outcome w = (.ok s, w')) : Text.IsHex s.commit
  checksum {p : Prelude} {w w' : World} {s : LockedSource} (hw : I w)
    (h : (fetch p).outcome w = (.ok s, w')) : Text.IsHex s.checksum

/-- An entry without blanks is fetched for a prelude without blanks. -/
theorem Pins.trimmed (hfetch : Pins I fetch) {p : Prelude} {s : LockedSource} (hw : I w)
    (hp : p.trimmed = p) (h : (fetch p).outcome w = (.ok s, w')) : s.trimmed = s := by
  obtain ⟨hgit, href, hfile⟩ : s.git = p.git ∧ s.ref = p.reference ∧ s.file = p.file := by
    simpa [LockedSource.key, Prelude.key] using hfetch.key hw h
  have htrimmed : Text.trim p.git = p.git ∧ Text.trim p.file = p.file :=
    ⟨congrArg Prelude.git hp, congrArg Prelude.file hp⟩
  rw [LockedSource.trimmed, hgit, href, hfile, htrimmed.1, htrimmed.2, Prelude.trim_reference hp,
    (hfetch.commit hw h).trim_eq, (hfetch.checksum hw h).trim_eq, ← hgit, ← href, ← hfile]

/-! ## Fetching into the cache -/

/-- Every revision of a repository that can be copied is resolved to a hexadecimal hash. -/
def HexHashes (w : World) : Prop :=
  ∀ url r revision hash, w.clone url = .ok r → w.git.resolve r revision = .ok hash → Text.IsHex hash

/-- A revision is resolved to a commit of the repository, unless other answers were given. -/
theorem hexHashes_of_commits (hgit : w.git.resolve = Git.Repository.resolve)
    (h : ∀ url r, w.clone url = .ok r → ∀ c ∈ r.commits, Text.IsHex c.hash) : HexHashes w := by
  intro url r revision hash hr hresolve
  rw [hgit] at hresolve
  obtain ⟨c, hc, rfl⟩ := Git.Repository.exists_of_resolve hresolve
  exact h url r hr c hc

/-- Fetching into the cache pins preludes, in whatever directory it is. -/
theorem pins_fetch (home : String) : Pins HexHashes (Cache.fetch home) where
  keeps hw h := by
    obtain ⟨⟨files, log, rfl⟩, -⟩ := Cache.fetch_spec h
    exact hw
  key _ h := (Cache.fetch_spec h).2.1
  commit hw h := by
    obtain ⟨-, -, -, r, revision, hr, hresolve⟩ := Cache.fetch_spec h
    exact hw _ r revision _ hr hresolve
  checksum _ h := (Cache.fetch_spec h).2.2.1

/-! ## One prelude after the other -/

/-- Preludes are fetched one after the other, each in the world that the one before it left. -/
inductive Fetches (fetch : Cache.Fetcher) : List Prelude → World → List LockedSource → World → Prop
  | nil {w : World} : Fetches fetch [] w [] w
  | cons {p : Prelude} {rest : List Prelude} {s : LockedSource} {fetched : List LockedSource}
      {w v w' : World} (h : (fetch p).outcome w = (.ok s, v))
      (hrest : Fetches fetch rest v fetched w') : Fetches fetch (p :: rest) w (s :: fetched) w'

theorem exists_of_fetchEach (h : (fetchEach fetch preludes l).outcome w = (.ok l', w')) :
    ∃ fetched, Fetches fetch preludes w fetched w' ∧ l' = fetched.foldl Lockfile.put l := by
  induction preludes generalizing l w with
  | nil =>
    obtain ⟨⟨⟩, rfl⟩ := Prod.mk.inj h
    exact ⟨[], .nil, rfl⟩
  | cons p rest ih =>
    obtain ⟨s, v, hs, h⟩ := Task.exists_of_outcome_bind h
    obtain ⟨fetched, hfetched, rfl⟩ := ih h
    exact ⟨s :: fetched, .cons hs hfetched, rfl⟩

theorem Fetches.keys_eq (h : Fetches fetch preludes w fetched w') (hfetch : Pins I fetch) (hw : I w) :
    fetched.map LockedSource.key = preludes.map Prelude.key := by
  induction h with
  | nil => rfl
  | cons hs _ ih => rw [List.map_cons, List.map_cons, hfetch.key hw hs, ih (hfetch.keeps hw hs)]

theorem Fetches.trimmed (h : Fetches fetch preludes w fetched w') (hfetch : Pins I fetch) (hw : I w)
    (hp : ∀ p ∈ preludes, p.trimmed = p) : ∀ s ∈ fetched, s.trimmed = s := by
  induction h with
  | nil => simp
  | cons hs _ ih =>
    rw [List.forall_mem_cons] at hp ⊢
    exact ⟨hfetch.trimmed hw hp.1 hs, ih (hfetch.keeps hw hs) hp.2⟩

/-- The last entry that was fetched for the key of a prelude. -/
theorem Fetches.exists_last (h : Fetches fetch preludes w fetched w') (hfetch : Pins I fetch)
    (hw : I w) {p : Prelude} (hp : p ∈ preludes) :
    ∃ s, fetched.reverse.find? (·.key == p.key) = some s := by
  have hkey : p.key ∈ fetched.map LockedSource.key :=
    h.keys_eq hfetch hw ▸ List.mem_map_of_mem hp
  obtain ⟨s, hs, hkey⟩ := List.mem_map.mp hkey
  rw [← Option.isSome_iff_exists, List.find?_isSome]
  exact ⟨s, by simpa using hs, by simpa using hkey⟩

theorem Fetches.find?_eq_none (h : Fetches fetch preludes w fetched w') (hfetch : Pins I fetch)
    (hw : I w) {key : String × String × String} (hkey : ∀ p ∈ preludes, p.key ≠ key) :
    fetched.reverse.find? (·.key == key) = none := by
  rw [List.find?_eq_none]
  intro s hs
  have hmem : s.key ∈ preludes.map Prelude.key :=
    h.keys_eq hfetch hw ▸ List.mem_map_of_mem (List.mem_reverse.mp hs)
  obtain ⟨p, hp, heq⟩ := List.mem_map.mp hmem
  simpa [← heq] using hkey p hp

/-- Fetching into the cache leaves a world with other files and more in its log. -/
theorem Fetches.exists_eq (h : Fetches (Cache.fetch home) preludes w fetched w') :
    ∃ files log, w' = { w with files, log } := by
  induction h with
  | nil => exact ⟨_, _, rfl⟩
  | cons hs _ ih =>
    obtain ⟨⟨_, _, rfl⟩, -⟩ := Cache.fetch_spec hs
    obtain ⟨files, log, rfl⟩ := ih
    exact ⟨files, log, rfl⟩

/-! ## The lockfile of a project -/

theorem findLockfile_spec (h : findLockfile w m = .ok (some l)) :
    l.IsTrimmed ∧ l.project = m.name := by
  unfold findLockfile at h
  split at h
  · next hload =>
    split_ifs at h with hproject
    cases h
    exact ⟨Lockfile.isTrimmed_of_load hload, hproject⟩
  · split_ifs at h
    cases h

/-- A lockfile to start with, found or new, is trimmed and is for the project of the manifest. -/
theorem isTrimmed_of_start (hname : Text.trim m.name = m.name)
    (h : findLockfile w m = .ok (some l) ∨ ∃ tool now, l = Lockfile.new m.name tool now) :
    l.IsTrimmed ∧ l.project = m.name := by
  rcases h with h | ⟨tool, now, rfl⟩
  · exact findLockfile_spec h
  · refine ⟨?_, hname⟩
    intro s hs
    cases hs

/-- A lockfile that was written for a manifest is found again, with the same entries. -/
theorem exists_findLockfile_of_write {files : FileTree} (hpath : Path.isAbsolute m.lockfilePath)
    (hname : Text.trim m.name = m.name) (htrimmed : l.IsTrimmed) (hproject : l.project = m.name)
    (hwrite : (l.write w.files w.cwd m.lockfilePath w.now w.lockfiles).2 = .ok files)
    (hyaml : (l.prepared (Path.absolute w.cwd m.lockfilePath) w.now).ReadsBack w.lockfiles) :
    ∃ locked, findLockfile { w with files } m = .ok (some locked) ∧
      ∀ p, locked.find? p = l.find? p := by
  have hne : m.lockfilePath ≠ "" := Path.ne_empty_of_isAbsolute hpath
  have hwritten : (l.write w.files w.cwd m.lockfilePath w.now w.lockfiles).1 =
      l.prepared (Path.absolute w.cwd m.lockfilePath) w.now := by
    obtain ⟨_, heq, rfl, -⟩ := Lockfile.exists_prepared_of_write hwrite
    rw [heq, if_neg hne]
  have habsolute : Path.isAbsolute (Path.absolute w.cwd m.lockfilePath) := by
    rw [Path.absolute, if_pos hpath]
    exact Path.isAbsolute_clean hpath
  refine ⟨(l.prepared (Path.absolute w.cwd m.lockfilePath) w.now).trimmed.normalize, ?_, ?_⟩
  · have hload : World.lockfile { w with files } m.lockfilePath =
        .ok (l.prepared (Path.absolute w.cwd m.lockfilePath) w.now).trimmed.normalize := by
      rw [← hwritten]
      exact Lockfile.load_of_write hwrite (hwritten ▸ habsolute) (hwritten ▸ hyaml) hne
        (hwritten ▸ rfl)
    have hlocked : Text.trim l.project = m.name := by rw [hproject, hname]
    rw [findLockfile, hload]
    exact if_pos hlocked
  · intro p
    rw [Lockfile.find?_eq, Lockfile.find?_eq, Lockfile.lookup_trimmed_prepared htrimmed]

/-- A prelude with an entry in the lockfile is checked out. -/
theorem load_of_locked? {project : Project} {p : Prelude} {s : LockedSource} (hp : p.isGit)
    (hhome : project.home = some home) (hs : project.locked? p = some s) :
    project.load p = (Cache.checkout home s).adapt (.locked p) >>= readCached p := by
  simp [load, hp, hhome, hs]

/--
The lockfile that is written after a fetch is found again; what fetches may be the cache (`pins_fetch`)
or anything else that pins preludes. For every prelude that comes from a repository the lockfile has
the entry that was fetched last for the key of the prelude, which is then checked out and not resolved
anew; and it has what it had before for all other keys.
-/
theorem findLockfile_of_fetchAll {given files : FileTree} {path : String}
    {read : ByteArray → Except Yaml.DecodeError Manifest}
    (hcwd : Path.isAbsolute w.cwd) (hm : Manifest.load given w.cwd path read = .ok m)
    (hl : findLockfile w m = .ok (some l) ∨ ∃ tool now, l = Lockfile.new m.name tool now)
    (hfetch : Pins I fetch) (hw : I w) (hall : (fetchAll fetch m l).outcome w = (.ok l', w'))
    (hwrite : (l'.write w'.files w'.cwd m.lockfilePath w'.now w'.lockfiles).2 = .ok files)
    (hyaml : (l'.prepared (Path.absolute w'.cwd m.lockfilePath) w'.now).ReadsBack w'.lockfiles) :
    ∃ fetched locked, Fetches fetch m.gitPreludes w fetched w' ∧
      findLockfile { w' with files } m = .ok (some locked) ∧
      (∀ p ∈ m.gitPreludes, ∃ s, fetched.reverse.find? (·.key == p.key) = some s ∧
        locked.find? p = some s ∧
        ∀ cache, load { manifest := m, lockfile := some locked, home := some cache } p =
          (Cache.checkout cache s).adapt (.locked p) >>= readCached p) ∧
      ∀ p : Prelude, (∀ q ∈ m.gitPreludes, q.key ≠ p.key) → locked.find? p = l.find? p := by
  obtain ⟨fetched, hfetched, rfl⟩ := exists_of_fetchEach hall
  have hpreludes : ∀ p ∈ m.gitPreludes, p.trimmed = p := fun p hp =>
    Manifest.trimmed_of_load hm (List.mem_of_mem_filter hp)
  obtain ⟨htrimmed, hproject⟩ := isTrimmed_of_start (Manifest.trim_name_of_load hm) hl
  have hput : (fetched.foldl Lockfile.put l).IsTrimmed :=
    htrimmed.foldl_put (hfetched.trimmed hfetch hw hpreludes)
  obtain ⟨locked, hlocked, hfind⟩ := exists_findLockfile_of_write
    (Manifest.isAbsolute_lockfilePath hcwd hm) (Manifest.trim_name_of_load hm) hput
    ((Lockfile.project_foldl_put l fetched).trans hproject) hwrite hyaml
  refine ⟨fetched, locked, hfetched, hlocked, ?_, ?_⟩
  · intro p hp
    have hgit : p.isGit := (List.mem_filter.mp hp).2
    obtain ⟨s, hs⟩ := hfetched.exists_last hfetch hw hp
    have hfound : locked.find? p = some s := by
      rw [hfind, Lockfile.find?_eq, if_pos hgit, Lockfile.lookup_foldl_put, hs, Option.some_or]
    exact ⟨s, hs, hfound, fun cache => load_of_locked? hgit rfl hfound⟩
  · intro p hp
    rw [hfind, Lockfile.find?_eq, Lockfile.find?_eq, Lockfile.lookup_foldl_put,
      hfetched.find?_eq_none hfetch hw hp, Option.none_or]

/-! ## A lockfile that is out of date -/

namespace Outdated

/-- The hash of the commit that the tag of the prelude stands for. -/
def hash : String := "0123456789abcdef0123456789abcdef01234567"

/-- A manifest with a prelude from a repository, and a lockfile with an older commit for it. -/
def world : World where
  cwd := "/p"
  files := ⟨[
    (["p"], .directory),
    (["p", "wistful.yml"],
      .file "name: a\nmain: m\nprelude:\n- git: r\n  tag: ' v'\n  file: f\n".toUTF8),
    (["p", "wistful.lock"],
      .file "project: a\nsources:\n- git: r\n  ref: tag:v\n  commit: 0\n  file: f\n".toUTF8)]⟩
  clone _ := (({} : Git.Repository).commit hash [("f", "a".toUTF8)] ["v"] []).clone

def described : Manifest where
  path := "/p/wistful.yml"
  dir := "/p"
  name := "a"
  main := "m"
  onError := "stop"
  log := ⟨"info", "text"⟩
  entries := [some { git := "r", tag := "v", file := "f" }]

/-- The lockfile with the one entry for the prelude. -/
def recorded (commit checksum : String) : Lockfile where
  path := "/p/wistful.lock"
  project := "a"
  sources := [some { git := "r", ref := "tag:v", commit, file := "f", checksum }]

/-- The lockfile after the fetch. -/
def pinned : Lockfile :=
  recorded hash "ca978112ca1bbdcafac231b39a23dc4da786eff8147c4e72b9807785afee48bb"

/-- Fetching gives the lockfile that is expected, and it can be written. -/
def isPinned : Except CacheError Lockfile × World → Bool
  | (.ok l, w) => l = pinned &&
    (l.write w.files world.cwd described.lockfilePath world.now).2.toOption.isSome
  | (.error _, _) => false

end Outdated

open Outdated in
theorem findLockfile_of_fetchAll_outdated :
    Path.isAbsolute world.cwd ∧ Manifest.load world.files world.cwd "wistful.yml" = .ok described ∧
      findLockfile world described = .ok (some (recorded "0" "")) ∧
      Pins HexHashes (Cache.fetch "/h") ∧ HexHashes world ∧
      ∃ w' files, (fetchAll (Cache.fetch "/h") described (recorded "0" "")).outcome world =
          (.ok pinned, w') ∧
        (pinned.write w'.files w'.cwd described.lockfilePath w'.now w'.lockfiles).2 = .ok files ∧
        (pinned.prepared (Path.absolute w'.cwd described.lockfilePath) w'.now).ReadsBack
          w'.lockfiles ∧
        ∃ fetched locked, Fetches (Cache.fetch "/h") described.gitPreludes world fetched w' ∧
          findLockfile { w' with files } described = .ok (some locked) ∧
          ∃ s, fetched.reverse.find? (·.key == ("r", "tag:v", "f")) = some s ∧
            locked.find? { git := "r", tag := "v", file := "f" } = some s := by
  have hcwd : Path.isAbsolute world.cwd := by decide
  have hm : Manifest.load world.files world.cwd "wistful.yml" = .ok described :=
    Task.eq_ok_of_toOption (by decide +kernel)
  have hl : findLockfile world described = .ok (some (recorded "0" "")) :=
    Task.eq_ok_of_toOption (by decide +kernel)
  have hhashes : HexHashes world := by
    have hhash : Text.IsHex Outdated.hash := by decide +kernel
    refine hexHashes_of_commits rfl ?_
    rintro url r ⟨⟩ c hc
    rw [List.mem_singleton.mp hc]
    exact hhash
  have hpinned :
      isPinned ((fetchAll (Cache.fetch "/h") described (recorded "0" "")).outcome world) := by
    decide +kernel
  have hyaml : (pinned.prepared (Path.absolute world.cwd described.lockfilePath) world.now).ReadsBack
      world.lockfiles := Task.eq_ok_of_toOption (by decide +kernel)
  rcases hall : (fetchAll (Cache.fetch "/h") described (recorded "0" "")).outcome world with
    ⟨e | l, w'⟩
  · simp [hall, isPinned] at hpinned
  · simp only [hall, isPinned, Bool.and_eq_true, decide_eq_true_eq] at hpinned
    obtain ⟨rfl, hfiles⟩ := hpinned
    obtain ⟨files, hfiles⟩ := Option.isSome_iff_exists.mp hfiles
    replace hfiles := Task.eq_ok_of_toOption hfiles
    obtain ⟨_, hfetches, -⟩ := exists_of_fetchEach hall
    obtain ⟨_, _, rfl⟩ := hfetches.exists_eq
    obtain ⟨fetched, locked, hfetched, hlocked, hgit, -⟩ :=
      findLockfile_of_fetchAll hcwd hm (.inl hl) (pins_fetch "/h") hhashes hall hfiles hyaml
    obtain ⟨s, hs, hfound, -⟩ := hgit { git := "r", tag := "v", file := "f" } (by decide)
    exact ⟨hcwd, hm, hl, pins_fetch "/h", hhashes, _, files, rfl, hfiles, hyaml, fetched,
      locked, hfetched, hlocked, s, hs, hfound⟩

end Project

end Scriptlet
