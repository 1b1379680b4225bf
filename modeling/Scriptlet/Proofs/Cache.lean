import Mathlib
import Scriptlet.Cache
import Scriptlet.Proofs.Task
import Scriptlet.Proofs.Text.Trimming

/-!
# What fetching a prelude gives

A prelude is resolved to a commit of the copy of its repository, and its entry has the key of the
prelude, the hash of that commit and a checksum. The repositories themselves are left alone.

## Main statements

* `Git.Repository.exists_of_resolve`: a revision names a commit of its repository
* `Cache.fetch_spec`: the entry that is fetched for a prelude
-/

namespace Scriptlet

namespace Git.Repository

variable {r : Repository} {c d : Commit} {name revision hash : String}

theorem mem_of_commit? (h : r.commit? hash = some c) : c ∈ r.commits :=
  List.mem_of_find?_eq_some h

theorem mem_of_named? (h : r.named? name = some c) : c ∈ r.commits := by
  unfold named? at h
  split at h
  · next hc =>
    cases h
    exact mem_of_commit? hc
  · obtain ⟨hash, -, hc⟩ := Option.bind_eq_some_iff.mp h
    exact mem_of_commit? hc

theorem mem_of_ancestor? {n : Nat} (hc : c ∈ r.commits) (h : r.ancestor? n c = some d) :
    d ∈ r.commits := by
  induction n generalizing c with
  | zero =>
    cases h
    exact hc
  | succ n ih =>
    obtain ⟨parent, -, h⟩ := Option.bind_eq_some_iff.mp h
    obtain ⟨e, he, h⟩ := Option.bind_eq_some_iff.mp h
    exact ih (mem_of_commit? he) h

/-- A revision names a commit of its repository. -/
theorem exists_of_resolve (h : r.resolve revision = .ok hash) : ∃ c ∈ r.commits, c.hash = hash := by
  simp only [resolve] at h
  split at h
  · next c n hc _ =>
    split at h
    · next d hd =>
      cases h
      exact ⟨d, mem_of_ancestor? (mem_of_named? hc) hd, rfl⟩
    · cases h
  · cases h

end Git.Repository

namespace Cache

variable {w w' : World} {home url dir hash : String} {p : Prelude} {s : LockedSource}

theorem exists_of_firstRevision {git : Git.Library} {r : Git.Repository} {revisions : List String}
    (h : firstRevision git r revisions = .ok hash) :
    ∃ revision ∈ revisions, git.resolve r revision = .ok hash := by
  fun_induction firstRevision git r revisions with
  | case1 => cases h
  | case2 revision => exact ⟨revision, by simp, h⟩
  | case3 revision rest _ found hfound =>
    cases h
    exact ⟨revision, by simp, hfound⟩
  | case4 revision rest _ _ _ ih =>
    obtain ⟨revision, hmem, hresolve⟩ := ih h
    exact ⟨revision, List.mem_cons_of_mem _ hmem, hresolve⟩

theorem isHex_of_checksum {path sum : String} (h : checksum w path = .ok sum) : Text.IsHex sum := by
  unfold checksum at h
  cases hread : w.read path with
  | error e => simp [hread, Except.map] at h
  | ok bytes =>
    rw [hread] at h
    obtain rfl := Except.ok.inj h
    exact Sha256.isHex_hex bytes

/-! ## What keeping a commit changes -/

theorem changesFiles_place (path : String) : (place path).ChangesFiles :=
  .bind .get fun _ => .pure _

@[simp] theorem outcome_claim (path : String) : (claim path).outcome w =
    (((w.files.makeDir w.cwd path).map fun _ => ()).mapError .directory, w) := by
  simp only [claim, Task.outcome_bind, Task.outcome_get, Task.outcome_orFail]

theorem changesFiles_claim (path : String) : (claim path).ChangesFiles :=
  .bind .get fun _ => .orFail _ _

theorem outcome_checkOut (r : Git.Repository) (hash : String) (scratch : List String) :
    (checkOut r hash scratch).outcome w =
      match w.git.files r hash with
      | none => (.error (.noCommit hash), w)
      | some files => (.ok (), { w with files := w.files.putFiles scratch files }) := by
  simp only [checkOut, Task.outcome_bind, Task.outcome_get]
  cases w.git.files r hash <;> rfl

theorem changesFiles_checkOut (r : Git.Repository) (hash : String) (scratch : List String) :
    (checkOut r hash scratch).ChangesFiles := by
  refine .bind .get fun w => ?_
  split
  · exact .throw _
  · exact .edit _

theorem changesFiles_settle (r : Git.Repository) (hash : String) (scratch : List String)
    (path : String) : (settle r hash scratch path).ChangesFiles := by
  refine .bind .get fun w => ?_
  split
  · exact .pure hash
  · exact .bind (changesFiles_checkOut r hash scratch) fun _ => .bind (.edit _) fun _ => .pure hash
  · exact .bind (changesFiles_checkOut r hash scratch) fun _ => .throw _

variable {choose : Git.Repository → Except CacheError String}

theorem changesFiles_install (url dir : String) (scratch : List String)
    (choose : Git.Repository → Except CacheError String) :
    (install url dir scratch choose).ChangesFiles :=
  .bind (.report _ _ _) fun _ => .bind .get fun _ => .bind (.orFail _ _) fun _ =>
    .bind (.edit _) fun _ => .bind (.orFail _ _) fun _ => changesFiles_settle _ _ _ _

theorem changesFiles_ensure (url dir : String) (choose : Git.Repository → Except CacheError String) :
    (ensure url dir choose).ChangesFiles :=
  .bind ((Task.ChangesFiles.onFiles _).adapt _) fun _ => .bind (changesFiles_place dir) fun _ =>
    .bind .get fun _ => .bind (changesFiles_claim _) fun _ =>
      (changesFiles_install _ _ _ _).cleanup _

/-! ## What was kept -/

theorem eq_of_settle {r : Git.Repository} {scratch : List String} {path found : String}
    (h : (settle r hash scratch path).outcome w = (.ok found, w')) : found = hash := by
  obtain ⟨_, _, -, h⟩ := Task.exists_of_outcome_bind h
  split at h
  · exact (Except.ok.inj (Prod.mk.inj h).1).symm
  · obtain ⟨_, _, -, h⟩ := Task.exists_of_outcome_bind h
    obtain ⟨_, _, -, h⟩ := Task.exists_of_outcome_bind h
    exact (Except.ok.inj (Prod.mk.inj h).1).symm
  · obtain ⟨_, _, -, h⟩ := Task.exists_of_outcome_bind h
    cases (Prod.mk.inj h).1

theorem install_spec {scratch : List String}
    (h : (install url dir scratch choose).outcome w = (.ok hash, w')) :
    ∃ r, w.clone url = .ok r ∧ choose r = .ok hash := by
  obtain ⟨_, v, hreport, h⟩ := Task.exists_of_outcome_bind h
  obtain ⟨_, _, hget, h⟩ := Task.exists_of_outcome_bind h
  obtain ⟨⟨⟩, rfl⟩ := Prod.mk.inj hreport
  obtain ⟨⟨⟩, rfl⟩ := Prod.mk.inj hget
  obtain ⟨r, _, hclone, h⟩ := Task.exists_of_outcome_bind h
  obtain ⟨_, _, -, h⟩ := Task.exists_of_outcome_bind h
  obtain ⟨found, _, hfound, h⟩ := Task.exists_of_outcome_bind h
  obtain rfl := eq_of_settle h
  exact ⟨r, (Task.of_outcome_orFail hclone).1, (Task.of_outcome_orFail hfound).1⟩

theorem ensure_spec (h : (ensure url dir choose).outcome w = (.ok hash, w')) :
    ∃ r, w.clone url = .ok r ∧ choose r = .ok hash := by
  obtain ⟨_, v, hmade, h⟩ := Task.exists_of_outcome_bind h
  obtain ⟨base, v₁, hplace, h⟩ := Task.exists_of_outcome_bind h
  obtain ⟨v₂, _, hget, h⟩ := Task.exists_of_outcome_bind h
  obtain ⟨_, v₃, hclaim, h⟩ := Task.exists_of_outcome_bind h
  obtain ⟨files, log, rfl⟩ := ((Task.ChangesFiles.onFiles _).adapt _).exists_eq hmade
  obtain ⟨-, rfl⟩ := Prod.mk.inj hplace
  obtain ⟨-, rfl⟩ := Prod.mk.inj hget
  rw [outcome_claim] at hclaim
  obtain ⟨-, rfl⟩ := Prod.mk.inj hclaim
  dsimp only at h
  rw [Task.outcome_cleanup] at h
  obtain ⟨r, hr, hchoose⟩ := install_spec (Prod.ext (Prod.mk.inj h).1 rfl)
  exact ⟨r, hr, hchoose⟩

/-- The entry that is fetched for a prelude. -/
theorem fetch_spec (h : (fetch home p).outcome w = (.ok s, w')) :
    (∃ files log, w' = { w with files, log }) ∧ s.key = p.key ∧ Text.IsHex s.checksum ∧
      ∃ r revision, w.clone p.git = .ok r ∧ w.git.resolve r revision = .ok s.commit := by
  unfold fetch at h
  cases hgit : p.isGit with
  | false => simp [hgit] at h
  | true =>
    cases hpin : p.revisions.isEmpty with
    | true => simp [hgit, hpin] at h
    | false =>
      simp only [hgit, hpin, Bool.false_eq_true, if_false, if_true] at h
      obtain ⟨w₁, w₂, hworld, hrest⟩ := Task.exists_of_outcome_bind h
      obtain ⟨commit, w₃, hcommit, hrest⟩ := Task.exists_of_outcome_bind hrest
      obtain ⟨v, w₄, hv, hread⟩ := Task.exists_of_outcome_bind hrest
      obtain ⟨sum, w₅, hsum, hreport⟩ := Task.exists_of_outcome_bind hread
      obtain ⟨⟨⟩, rfl⟩ := Prod.mk.inj hworld
      obtain ⟨⟨⟩, rfl⟩ := Prod.mk.inj hv
      obtain ⟨hsum, rfl⟩ := Task.of_outcome_orFail hsum
      obtain ⟨⟨⟩, rfl⟩ := Prod.mk.inj hreport
      obtain ⟨r, hr, hchoose⟩ := ensure_spec hcommit
      obtain ⟨revision, -, hresolve⟩ := exists_of_firstRevision (Task.eq_ok_of_mapError hchoose)
      obtain ⟨files, log, rfl⟩ := (changesFiles_ensure _ _ _).exists_eq hcommit
      exact ⟨⟨files, _, rfl⟩, rfl, isHex_of_checksum hsum, r, revision, hr, hresolve⟩

end Cache

end Scriptlet
