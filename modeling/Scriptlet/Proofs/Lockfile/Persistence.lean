import Scriptlet.Proofs.Lockfile
import Scriptlet.Proofs.Manifest
import Scriptlet.Proofs.Task

/-!
# What a lockfile keeps

Putting an entry changes one place of a lockfile, the first one with its key, or it adds a place at
the end. Sorting rearranges the trimmed entries and nothing else, and the next time it finds them in
order. Writing a lockfile and reading it again trims and sorts it, so a prelude finds what it found
before, among any number of entries for its key, unless one of these has blanks around its fields:
such an entry may be for the key only after it has been trimmed.

## Main statements

* `Lockfile.putSource_eq`: the place that an entry takes
* `Lockfile.exists_sources_normalize`: sorting rearranges the trimmed entries
* `Lockfile.normalize_normalize`: a sorted lockfile is left alone
* `Lockfile.lookups_of_write`: what is found after putting, sorting, writing and reading
-/

namespace Scriptlet

/-- The key of a prelude has no blanks at the ends of its parts if the prelude has none. -/
theorem LockedSource.key_trimmed_of_key {s : LockedSource} {p : Prelude} (hp : p.trimmed = p)
    (h : s.key = p.key) : s.trimmed.key = p.key := by
  have hgit : Text.trim p.git = p.git := congrArg Prelude.git hp
  have hfile : Text.trim p.file = p.file := congrArg Prelude.file hp
  simp only [LockedSource.key, Prelude.key, Prod.mk.injEq] at h ⊢
  obtain ⟨h₁, h₂, h₃⟩ := h
  simp only [LockedSource.trimmed, h₁, h₂, h₃]
  exact ⟨hgit, Prelude.trim_reference hp, hfile⟩

namespace Lockfile

variable {l : Lockfile} {s : LockedSource} {key : String × String × String}

/-! ## Places -/

/-- An entry replaces the first one with its key, or it comes last. -/
theorem putSource_eq (s : LockedSource) (sources : List (Option LockedSource)) :
    (∃ before t after, sources = before ++ some t :: after ∧ t.key = s.key ∧
        (∀ u, some u ∈ before → u.key ≠ s.key) ∧
        putSource s sources = before ++ some s :: after) ∨
      (∀ u, some u ∈ sources → u.key ≠ s.key) ∧ putSource s sources = sources ++ [some s] := by
  induction sources with
  | nil => exact .inr ⟨fun _ hu => absurd hu List.not_mem_nil, rfl⟩
  | cons t rest ih =>
    unfold putSource
    split_ifs with ht
    · cases t with
      | none => cases ht
      | some t =>
        have hkey : t.key = s.key := by simpa using ht
        exact .inl ⟨[], t, rest, rfl, hkey, fun _ hu => absurd hu List.not_mem_nil, rfl⟩
    · have hne : ∀ u, some u = t → u.key ≠ s.key := by
        rintro u rfl
        simpa using ht
      rcases ih with ⟨before, u, after, rfl, hu, hbefore, heq⟩ | ⟨hrest, heq⟩
      · refine .inl ⟨t :: before, u, after, rfl, hu, ?_, by rw [heq, List.cons_append]⟩
        intro v hv
        exact (List.mem_cons.mp hv).elim (hne v) (hbefore v)
      · refine .inr ⟨?_, by rw [heq, List.cons_append]⟩
        intro v hv
        exact (List.mem_cons.mp hv).elim (hne v) (hrest v)

/-! ## Order -/

theorem sources_normalize_congr {l' : Lockfile} (h : l.sources = l'.sources) :
    l.normalize.sources = l'.normalize.sources := by
  rw [normalize, normalize, h]

/-- Sorting rearranges the trimmed entries, in increasing order of their keys. -/
theorem exists_sources_normalize (l : Lockfile) :
    ∃ kept : List LockedSource, l.normalize.sources = kept.map some ∧
      kept.Perm ((l.sources.filterMap id).map LockedSource.trimmed) ∧
      kept.Pairwise (fun s t => s.le t) :=
  ⟨_, rfl, List.mergeSort_perm _ _,
    List.pairwise_mergeSort LockedSource.le_trans_of_le LockedSource.le_or_le _⟩

/-- A sorted lockfile without blanks is left as it is. -/
theorem sources_normalize_of_sorted {kept : List LockedSource} (hl : l.sources = kept.map some)
    (htrimmed : l.IsTrimmed) (hsorted : kept.Pairwise (fun s t => s.le t)) :
    l.normalize.sources = l.sources := by
  have hkept : kept.map LockedSource.trimmed = kept := by
    refine (List.map_congr_left ?_).trans (List.map_id _)
    intro s hs
    exact htrimmed s (by simpa [hl] using hs)
  have hfilter : l.sources.filterMap id = kept := by
    simp [hl, List.filterMap_map]
  rw [normalize, hfilter, hkept, List.mergeSort_of_pairwise hsorted, hl]

theorem sources_trimmed (l : Lockfile) : l.trimmed.sources = l.sources := rfl

theorem sources_normalize_normalize (l : Lockfile) :
    l.normalize.normalize.sources = l.normalize.sources := by
  obtain ⟨kept, hkept, -, hsorted⟩ := exists_sources_normalize l
  exact sources_normalize_of_sorted hkept (isTrimmed_normalize l) hsorted

theorem normalize_normalize (l : Lockfile) : l.normalize.normalize = l.normalize := by
  have hsources := sources_normalize_normalize l
  unfold normalize at hsources ⊢
  simpa using hsources

/-! ## Files -/

section

variable {format : Format} {files files' : FileTree} {cwd path now : String}

/-- What is left of a lockfile in memory after it was written has its entries in order. -/
theorem sources_write (h : (l.write files cwd path now format).2 = .ok files') :
    (l.write files cwd path now format).1.sources = l.normalize.sources := by
  obtain ⟨written, heq, -, -⟩ := exists_prepared_of_write h
  rw [heq]
  exact sources_normalize_congr rfl

theorem isAbsolute_path_write (hcwd : Path.isAbsolute cwd)
    (h : (l.write files cwd path now format).2 = .ok files') :
    Path.isAbsolute (l.write files cwd path now format).1.path := by
  obtain ⟨written, heq, hwritten, -⟩ := exists_prepared_of_write h
  rw [heq]
  change Path.isAbsolute written
  rw [hwritten]
  exact Path.isAbsolute_absolute hcwd _

end

theorem find?_congr {l' : Lockfile} (h : l.sources = l'.sources) (p : Prelude) :
    l.find? p = l'.find? p := by
  rw [find?, find?, h]

/-- A prelude finds what it found before, unless blanks belong to an entry for its key. -/
theorem find?_normalize_of_trimmed {p : Prelude} (hp : p.trimmed = p)
    (h : ∀ s, some s ∈ l.sources → s.trimmed.key = p.key → s.trimmed = s) :
    l.normalize.find? p = l.find? p := by
  have hlookup : l.stripped.lookup p.key = l.lookup p.key := by
    refine lookup_stripped ?_
    rintro s hs (hkey | hkey)
    · exact h s hs (LockedSource.key_trimmed_of_key hp hkey)
    · exact h s hs hkey
  rw [find?_eq, find?_eq, lookup_normalize_eq, hlookup]

/--
A lockfile is a map from keys to entries, in which the first entry with a key counts: after an entry
has been put, it is found for its key, all other keys find what they found before, and at most one
entry has been added. Sorting rearranges the trimmed entries by their keys, does nothing the second
time, and does not change what is found if no field had blanks at its ends. A lockfile that was
written and is read again, in whatever format, has the entries of the sorted one; what a prelude finds in it is what it
finds among the trimmed entries in their old order, and what it found before, unless an entry for
its key has blanks at the ends of its fields.
-/
theorem lookups_of_write (l : Lockfile) :
    (∀ s,
      (∀ p : Prelude, p.isGit → p.key = s.key → (l.put s).find? p = some s) ∧
      (∀ p : Prelude, p.key ≠ s.key → (l.put s).find? p = l.find? p) ∧
      ((∃ before t after, l.sources = before ++ some t :: after ∧ t.key = s.key ∧
          (∀ u, some u ∈ before → u.key ≠ s.key) ∧
          (l.put s).sources = before ++ some s :: after) ∨
        (∀ u, some u ∈ l.sources → u.key ≠ s.key) ∧ (l.put s).sources = l.sources ++ [some s])) ∧
      (∃ kept : List LockedSource, l.normalize.sources = kept.map some ∧
        kept.Perm ((l.sources.filterMap id).map LockedSource.trimmed) ∧
        kept.Pairwise (fun s t => toLex (s.git, toLex (s.ref, s.file)) ≤
          toLex (t.git, toLex (t.ref, t.file)))) ∧
      l.normalize.normalize = l.normalize ∧
      (l.IsTrimmed → ∀ p, l.normalize.find? p = l.find? p) ∧
      l.normalize.trimmed.normalize.sources = l.normalize.sources ∧
      ∀ format files files' cwd cwd' path path' now, Path.isAbsolute cwd →
        (l.write files cwd path now format).2 = .ok files' →
        (l.write files cwd path now format).1.ReadsBack format → path' ≠ "" →
        Path.absolute cwd' path' = (l.write files cwd path now format).1.path →
        ∃ loaded, load files' cwd' path' format = .ok loaded ∧
          loaded.sources = l.normalize.sources ∧
          (∀ p, loaded.find? p = l.stripped.find? p) ∧
          ∀ p, p.trimmed = p →
            (∀ s, some s ∈ l.sources → s.trimmed.key = p.key → s.trimmed = s) →
            loaded.find? p = l.find? p := by
  refine ⟨fun s => ⟨fun p hp hkey => ?_, fun p hkey => ?_, putSource_eq s l.sources⟩, ?_,
    normalize_normalize l, fun h p => ?_, sources_normalize_normalize l, ?_⟩
  · rw [find?_eq, if_pos hp, hkey, lookup_put_self]
  · rw [find?_eq, find?_eq, lookup_put_of_ne l hkey]
  · obtain ⟨kept, hkept, hperm, hsorted⟩ := exists_sources_normalize l
    exact ⟨kept, hkept, hperm, hsorted.imp LockedSource.le_iff.mp⟩
  · rw [find?_eq, find?_eq, lookup_normalize h]
  · intro format files files' cwd cwd' path path' now hcwd hwrite hyaml hne hpath
    have hload := load_of_write hwrite (isAbsolute_path_write hcwd hwrite) hyaml hne hpath
    have hsources : (l.write files cwd path now format).1.trimmed.normalize.sources =
        l.normalize.sources :=
      (sources_normalize_congr ((sources_trimmed _).trans (sources_write hwrite))).trans
        (sources_normalize_normalize l)
    refine ⟨_, hload, hsources, fun p => ?_, fun p hp h => ?_⟩
    · rw [find?_congr hsources, find?_eq, find?_eq, lookup_normalize_eq]
    · rw [find?_congr hsources, find?_normalize_of_trimmed hp h]

/-! ## Two entries for a key -/

namespace Doubled

def files : FileTree := ⟨[(["p"], .directory)]⟩

def wanted : Prelude := { git := "r", tag := "v", file := "f" }

def entry (git commit : String) : LockedSource := { git, ref := "tag:v", commit, file := "f" }

/-- A lockfile with two entries, of which the first one may have blanks around its repository. -/
def lockfile (git : String) : Lockfile where
  project := "a"
  sources := [some (entry git "1"), none, some (entry "r" "2")]

/-- What writing the lockfile gives. -/
def written (git : String) : Lockfile × Except LockfileError FileTree :=
  (lockfile git).write files "/p" "wistful.lock" ""

/-- The lockfile as it is written. -/
def sorted : Lockfile where
  path := "/p/wistful.lock"
  project := "a"
  sources := [some (entry "r" "1"), some (entry "r" "2")]

theorem prepared_lockfile {git : String} (h : (entry git "1").trimmed = entry "r" "1") :
    (lockfile git).prepared "/p/wistful.lock" "" = sorted := by
  have htrimmed : (entry "r" "2").trimmed = entry "r" "2" := by decide
  have hsorted : [entry "r" "1", entry "r" "2"].Pairwise (fun s t => s.le t) := by decide
  simp [prepared, normalize, lockfile, sorted, h, htrimmed, List.mergeSort_of_pairwise hsorted]

theorem trimmed_wanted : wanted.trimmed = wanted := by decide

theorem absolute_path : Path.absolute "/p" "wistful.lock" = sorted.path := by decide

/-- The lockfile can be written, and its text is read as the lockfile. -/
theorem exists_write_lockfile {git : String} (h : (entry git "1").trimmed = entry "r" "1") :
    ∃ files', (written git).2 = .ok files' ∧ (written git).1 = sorted ∧ sorted.ReadsBack {} := by
  have hwrite : written git =
      (sorted, (files.write "/p" "/p/wistful.lock" sorted.print.toUTF8).mapError
        (.write "/p/wistful.lock")) := by
    have hne : "wistful.lock" ≠ "" := by decide
    have hpath : Path.absolute "/p" "wistful.lock" = "/p/wistful.lock" := absolute_path
    simp only [written, write, if_neg hne, hpath, prepared_lockfile h]
  have hread : sorted.ReadsBack {} := Task.eq_ok_of_toOption (by decide +kernel)
  have hfiles : ((files.write "/p" "/p/wistful.lock" sorted.print.toUTF8).mapError
      (LockfileError.write "/p/wistful.lock")).toOption.isSome := by decide +kernel
  obtain ⟨files', hfiles'⟩ := Option.isSome_iff_exists.mp hfiles
  rw [hwrite]
  exact ⟨files', Task.eq_ok_of_toOption hfiles', rfl, hread⟩

end Doubled

open Doubled in
theorem lookups_of_write_doubled :
    Path.isAbsolute "/p" ∧ wanted.trimmed = wanted ∧
      (∀ s, some s ∈ (lockfile "r").sources → s.trimmed.key = wanted.key → s.trimmed = s) ∧
      ∃ files', (written "r").2 = .ok files' ∧ (written "r").1.ReadsBack {} ∧
        Path.absolute "/p" "wistful.lock" = (written "r").1.path ∧
        ∃ loaded, load files' "/p" "wistful.lock" = .ok loaded ∧
          loaded.find? wanted = some (entry "r" "1") := by
  have hcwd : Path.isAbsolute "/p" := by decide
  have htrimmed : ∀ s, some s ∈ (lockfile "r").sources → s.trimmed.key = wanted.key →
      s.trimmed = s := by
    intro s hs _
    simp only [lockfile, List.mem_cons, Option.some.injEq, reduceCtorEq, List.not_mem_nil,
      or_false, false_or] at hs
    rcases hs with rfl | rfl <;> decide
  have hfind : (lockfile "r").find? wanted = some (entry "r" "1") := by decide
  obtain ⟨files', hwrite, heq, hread⟩ := @exists_write_lockfile "r" (by decide)
  have hyaml : (written "r").1.ReadsBack {} := heq ▸ hread
  have hpath : Path.absolute "/p" "wistful.lock" = (written "r").1.path := heq ▸ absolute_path
  obtain ⟨-, -, -, -, -, hwritten⟩ := lookups_of_write (lockfile "r")
  obtain ⟨loaded, hload, -, -, hkept⟩ :=
    hwritten {} files files' "/p" "/p" "wistful.lock" "wistful.lock" "" hcwd hwrite hyaml (by decide)
      hpath
  exact ⟨hcwd, trimmed_wanted, htrimmed, files', hwrite, hyaml, hpath, loaded, hload,
    (hkept wanted trimmed_wanted htrimmed).trans hfind⟩

open Doubled in
/-- A blank hides the first of two entries, until writing the lockfile trims it. -/
theorem lookups_of_write_blank :
    wanted.trimmed = wanted ∧ (lockfile " r").find? wanted = some (entry "r" "2") ∧
      ∃ files', (written " r").2 = .ok files' ∧ (written " r").1.ReadsBack {} ∧
        Path.absolute "/p" "wistful.lock" = (written " r").1.path ∧
        ∃ loaded, load files' "/p" "wistful.lock" = .ok loaded ∧
          loaded.find? wanted = some (entry "r" "1") ∧
          loaded.find? wanted ≠ (lockfile " r").find? wanted := by
  have hfind : (lockfile " r").find? wanted = some (entry "r" "2") := by decide
  obtain ⟨files', hwrite, heq, hread⟩ := @exists_write_lockfile " r" (by decide)
  have hyaml : (written " r").1.ReadsBack {} := heq ▸ hread
  have hpath : Path.absolute "/p" "wistful.lock" = (written " r").1.path := heq ▸ absolute_path
  have habsolute : Path.isAbsolute (written " r").1.path :=
    isAbsolute_path_write (by decide) hwrite
  have hload := load_of_write hwrite habsolute hyaml (by decide) hpath
  have htrimmed : sorted.trimmed.IsTrimmed := by
    intro s hs
    simp only [sources_trimmed, sorted, List.mem_cons, Option.some.injEq, List.not_mem_nil,
      or_false] at hs
    rcases hs with rfl | rfl <;> decide
  have hloaded : sorted.trimmed.normalize.find? wanted = some (entry "r" "1") := by
    rw [find?_eq, lookup_normalize htrimmed]
    decide
  have hfound : (written " r").1.trimmed.normalize.find? wanted = some (entry "r" "1") :=
    heq ▸ hloaded
  have hne : (written " r").1.trimmed.normalize.find? wanted ≠ (lockfile " r").find? wanted := by
    rw [hfound, hfind]
    decide
  exact ⟨trimmed_wanted, hfind, files', hwrite, hyaml, hpath, _, hload, hfound, hne⟩

end Lockfile

end Scriptlet
