import Scriptlet.Proofs.Cache
import Scriptlet.Proofs.Files.Making

/-!
# What lies in the cache

The directory of a repository is named by its URL, of which only letters, digits, dots, dashes and
underscores are kept. What is left is the name of an entry of the cache, except for the two URLs that
are made of dots alone: `.` leads to the cache itself, and `..` to the directory that the cache is in.
So the copies of all repositories but the one at `..` are made below the cache, and nothing else is
changed.

## Main statements

* `Cache.segment_eq_iff`, `Cache.isName_segment`: the name that a URL gives
* `Cache.ensure_sameOutside`: what a copy of a repository leaves as it is
* `Cache.isChild_repositoryDir_iff`: which repositories have a directory in the cache
-/

namespace Scriptlet

namespace Cache

open FileTree

/-! ## Copies of repositories -/

section Copies

variable {w : World} {url dir path hash : String} {place scratch : List String}
  {choose : Git.Repository → Except CacheError String} {r : Git.Repository}

theorem checkOut_sameOutside (hs : place <+: scratch) (r : Git.Repository) (hash : String) :
    SameOutside place w.files ((checkOut r hash scratch).outcome w).2.files := by
  rw [outcome_checkOut]
  split
  · exact .refl _ _
  · exact sameOutside_putFiles hs _ _

theorem settle_sameOutside (hc : Path.isAbsolute w.cwd) (hs : place <+: scratch)
    (ht : place <+: Path.cleanSegments (Path.absolute w.cwd path)) :
    SameOutside place w.files ((settle r hash scratch path).outcome w).2.files := by
  have hcheckout := checkOut_sameOutside (w := w) hs r hash
  simp only [settle, Task.outcome_bind, Task.outcome_get]
  split
  · exact .refl _ _
  · next target hfind =>
    rw [← place_of_find_vacant hc hfind] at ht
    rw [Task.outcome_bind]
    generalize (checkOut r hash scratch).outcome w = out at hcheckout ⊢
    obtain ⟨e | _, v⟩ := out
    · exact hcheckout
    · exact hcheckout.trans (sameOutside_move hs ht _)
  · rw [Task.outcome_bind]
    generalize (checkOut r hash scratch).outcome w = out at hcheckout ⊢
    obtain ⟨e | _, v⟩ := out
    · exact hcheckout
    · exact hcheckout

theorem install_sameOutside (hc : Path.isAbsolute w.cwd) (hs : place <+: scratch)
    (ht : ∀ r hash, w.clone url = .ok r → choose r = .ok hash →
      place <+: Path.cleanSegments (Path.absolute w.cwd (Path.join dir hash))) :
    SameOutside place w.files ((install url dir scratch choose).outcome w).2.files := by
  simp only [install, Task.outcome_bind, Task.outcome_report, Task.outcome_get,
    Task.outcome_orFail, Task.outcome_edit]
  have hdirs := sameOutside_putDirs hs List.prefix_rfl w.files
  cases hr : w.clone url with
  | error e => exact .refl _ _
  | ok r =>
    cases hchoose : choose r with
    | error e =>
      simp only [Except.mapError, hchoose]
      exact hdirs
    | ok hash =>
      simp only [Except.mapError, hchoose]
      exact hdirs.trans (settle_sameOutside hc hs (ht r hash hr hchoose))

/-- A copy of a repository is made below any place that its directory is below. -/
theorem ensure_sameOutside (hc : Path.isAbsolute w.cwd)
    (hd : place <+: Path.cleanSegments (Path.absolute w.cwd dir))
    (ht : ∀ r hash, w.clone url = .ok r → choose r = .ok hash →
      place <+: Path.cleanSegments (Path.absolute w.cwd (Path.join dir hash))) :
    SameOutside place w.files ((ensure url dir choose).outcome w).2.files := by
  have hmade : SameOutside place w.files (w.files.makeDirs w.cwd dir).2 :=
    (prepared_makeDirs hc w.files dir).outside.of_prefix hd
  simp only [ensure, Cache.place, Task.outcome_bind, Task.outcome_adapt, Task.outcome_onFiles,
    Task.outcome_get, Task.outcome_pure, outcome_claim, Task.outcome_cleanup]
  generalize w.files.makeDirs w.cwd dir = made at hmade ⊢
  obtain ⟨e | _, files⟩ := made
  · exact hmade
  simp only [Except.mapError]
  generalize hscratch : Path.cleanSegments (Path.absolute w.cwd dir) ++ _ = scratch
  have hs : place <+: scratch := hscratch ▸ hd.trans (List.prefix_append _ _)
  have hinstall := install_sameOutside (w := { w with files }) hc hs ht
  split
  · next hclaim =>
    obtain ⟨-, rfl⟩ := Prod.mk.inj hclaim
    exact (hmade.trans hinstall).trans (sameOutside_remove hs _)
  · next hclaim =>
    obtain ⟨-, rfl⟩ := Prod.mk.inj hclaim
    exact hmade

end Copies

/-! ## The directory of a repository -/

variable {home url : String}

theorem map_eq_dots_iff {cs ds : List Char} (hd : ∀ d ∈ ds, d = '.') :
    cs.map (fun c => if isSafe c then c else '_') = ds ↔ cs = ds := by
  induction cs generalizing ds with
  | nil => rfl
  | cons c cs ih =>
    cases ds with
    | nil => simp
    | cons d ds =>
      rw [List.forall_mem_cons] at hd
      obtain ⟨rfl, hds⟩ := hd
      have hc : (if isSafe c then c else '_') = '.' ↔ c = '.' := by
        constructor
        · intro h
          split at h
          · exact h
          · cases h
        · rintro rfl
          rfl
      rw [List.map_cons, List.cons.injEq, List.cons.injEq, hc, ih hds]

/-- Dots are kept, and nothing else becomes a dot. -/
theorem segment_eq_iff {name : String} (hne : name ≠ "") (hd : ∀ c ∈ name.toList, c = '.') :
    segment url = name ↔ Text.trim url = name := by
  have hhead : "head" ≠ name := by
    rintro rfl
    exact absurd (hd 'h' (by decide)) (by decide)
  have hempty : String.ofList [] ≠ name := fun h => hne h.symm
  rw [segment, Text.trim]
  split
  · next h =>
    rw [List.isEmpty_iff.mp h]
    exact iff_of_false hhead hempty
  · rw [String.ofList_eq, String.ofList_eq, map_eq_dots_iff hd]

theorem segment_ne_empty (url : String) : segment url ≠ "" := by
  rw [segment]
  split
  · decide
  · next h => simpa using h

theorem isName_segment (hdot : Text.trim url ≠ ".") (hup : Text.trim url ≠ "..") :
    Path.IsName (segment url) where
  ne_empty := segment_ne_empty url
  ne_dot h := hdot ((segment_eq_iff (by decide) (by simp)).mp h)
  ne_up h := hup ((segment_eq_iff (by decide) (by simp)).mp h)
  no_slash h := absurd (isSafe_of_mem_segment h) (by decide)

theorem isName_git : Path.IsName "git" := ⟨by decide, by decide, by decide, by decide⟩

theorem repositoryDir_of_dot (home : String) (h : Text.trim url = ".") :
    repositoryDir home url = Path.join home "git" := by
  have hs : segment url = "." := (segment_eq_iff (by decide) (by simp)).mpr h
  rw [repositoryDir, hs, Path.join_dot (Path.join_ne_empty home isName_git),
    Path.clean_join_name home isName_git]

theorem repositoryDir_of_up (home : String) (h : Text.trim url = "..") :
    repositoryDir home url = Path.clean home := by
  have hs : segment url = ".." := (segment_eq_iff (by decide) (by simp)).mpr h
  rw [repositoryDir, hs, Path.join_up home isName_git]

theorem isChild_repositoryDir (home : String) (hdot : Text.trim url ≠ ".")
    (hup : Text.trim url ≠ "..") : Path.IsChild (Path.join home "git") (repositoryDir home url) :=
  ⟨segment url, isName_segment hdot hup,
    Path.join_join_name home isName_git (isName_segment hdot hup)⟩

/-- Unless it leads up, the directory of a repository is below the cache, or the cache itself. -/
theorem prefix_place_repositoryDir {cwd : String} (hc : Path.isAbsolute cwd) (home : String)
    (hup : Text.trim url ≠ "..") :
    Path.cleanSegments (Path.absolute cwd (Path.join home "git")) <+:
      Path.cleanSegments (Path.absolute cwd (repositoryDir home url)) := by
  by_cases hdot : Text.trim url = "."
  · rw [repositoryDir_of_dot home hdot]
  · rw [repositoryDir, Path.cleanSegments_absolute_join hc _ (isName_segment hdot hup)]
    exact List.prefix_append _ _

/--
The directory of a repository is an entry of the cache unless its URL is `.` or `..`, up to blanks at
its ends. These lead to the cache itself, and to the directory that the cache is in. Whatever happens
while a repository is copied, nothing outside of the cache changes, unless its URL is `..`.
-/
theorem isChild_repositoryDir_iff (home url : String) :
    (Path.IsChild (Path.join home "git") (repositoryDir home url) ↔
        Text.trim url ≠ "." ∧ Text.trim url ≠ "..") ∧
      (Text.trim url = "." → repositoryDir home url = Path.join home "git") ∧
      (Text.trim url = ".." → repositoryDir home url = Path.clean home) ∧
      ∀ (w : World) (choose : Git.Repository → Except CacheError String), Path.isAbsolute w.cwd →
        (∀ r hash, w.clone url = .ok r → choose r = .ok hash → Path.IsName hash) →
        Text.trim url ≠ ".." →
        SameOutside (Path.cleanSegments (Path.absolute w.cwd (Path.join home "git"))) w.files
          ((ensure url (repositoryDir home url) choose).outcome w).2.files := by
  have hgit := Path.join_ne_empty home isName_git
  refine ⟨⟨fun h => ⟨fun hdot => ?_, fun hup => ?_⟩, fun h => isChild_repositoryDir home h.1 h.2⟩,
    repositoryDir_of_dot home, repositoryDir_of_up home, fun w choose hc hhash hup => ?_⟩
  · obtain ⟨name, hname⟩ := h.exists_cleanSegments hgit
    rw [repositoryDir_of_dot home hdot] at hname
    simp at hname
  · obtain ⟨name, hname⟩ := h.exists_cleanSegments hgit
    rw [repositoryDir_of_up home hup, Path.cleanSegments_clean,
      Path.cleanSegments_join_name home isName_git] at hname
    simp at hname
  · have hplace := prefix_place_repositoryDir hc home hup
    refine ensure_sameOutside hc hplace fun r hash hr hchoose => ?_
    rw [Path.cleanSegments_absolute_join hc _ (hhash r hash hr hchoose)]
    exact hplace.trans (List.prefix_append _ _)

/-- The cache in `/h`: a repository at `..`, and one with a single commit at another URL. -/
theorem isChild_repositoryDir_iff_up :
    (Text.trim ".." = ".." ∧ repositoryDir "/h" ".." = Path.clean "/h" ∧
        ¬ Path.IsChild (Path.join "/h" "git") (repositoryDir "/h" "..")) ∧
      Text.trim "file:///r.git" ≠ ".." ∧ Path.isAbsolute "/" ∧ Path.IsName "c0ffee" ∧
      SameOutside (Path.cleanSegments (Path.absolute "/" (Path.join "/h" "git"))) {}
        ((ensure "file:///r.git" (repositoryDir "/h" "file:///r.git") fun _ => .ok "c0ffee").outcome
          { cwd := "/", clone := fun _ => .ok ⟨[⟨"c0ffee", none, [("p.wf", ⟨#[49]⟩)]⟩], []⟩ }).2.files := by
  have htrim : Text.trim ".." = ".." := by decide
  have hother : Text.trim "file:///r.git" ≠ ".." := by decide
  have hname : Path.IsName "c0ffee" := ⟨by decide, by decide, by decide, by decide⟩
  have habs : Path.isAbsolute "/" := by decide
  obtain ⟨hiff, -, hup, -⟩ := isChild_repositoryDir_iff "/h" ".."
  have hdir := hup htrim
  have hchild : ¬ Path.IsChild (Path.join "/h" "git") (repositoryDir "/h" "..") :=
    fun h => (hiff.mp h).2 htrim
  have hsame := (isChild_repositoryDir_iff "/h" "file:///r.git").2.2.2
    { cwd := "/", clone := fun _ => .ok ⟨[⟨"c0ffee", none, [("p.wf", ⟨#[49]⟩)]⟩], []⟩ }
    (fun _ => .ok "c0ffee") habs (fun r hash _ h => Except.ok.inj h ▸ hname) hother
  exact ⟨⟨htrim, hdir, hchild⟩, hother, habs, hname, hsame⟩

end Cache

end Scriptlet
