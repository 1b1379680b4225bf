import Mathlib
import Scriptlet.Lockfile
import Scriptlet.Proofs.Files.Writing
import Scriptlet.Proofs.Text.Trimming

/-!
# Lockfiles as maps

A lockfile is a map from keys to entries: the first entry with a key counts. Putting an entry changes
what is found for its key and for no other one. The entries are sorted when a lockfile is written and
when it is read; the order is that of their keys and the sort is stable, so the first entry with a key
stays the first one.

## Main definitions

* `Lockfile.lookup`: the entry that is found for a key
* `Lockfile.IsTrimmed`: no entry has blanks at the ends of its fields
* `Lockfile.stripped`: the lockfile with its entries trimmed
* `Lockfile.ReadsBack`: what is asked of the format in which a lockfile is written

## Main statements

* `Lockfile.lookup_put_self`, `Lockfile.lookup_put_of_ne`: what is found after an entry is put
* `Lockfile.lookup_normalize`: sorting does not change what is found
* `Lockfile.load_of_write`: a lockfile that was written is found again
-/

namespace Scriptlet

namespace LockedSource

variable {s t : LockedSource}

theorem le_iff : s.le t = true ↔
    toLex (s.git, toLex (s.ref, s.file)) ≤ toLex (t.git, toLex (t.ref, t.file)) := by
  rw [Prod.Lex.toLex_le_toLex, Prod.Lex.toLex_le_toLex]
  unfold le
  by_cases hg : s.git = t.git
  · by_cases hr : s.ref = t.ref
    · simp only [hg, hr, bne_self_eq_false, Bool.false_eq_true, if_false, Bool.not_eq_true',
        decide_eq_false_iff_not, not_lt, lt_irrefl, false_or, true_and]
    · simp only [hg, hr, bne_self_eq_false, Bool.false_eq_true, if_false, bne_iff_ne, ne_eq,
        not_false_eq_true, if_true, decide_eq_true_eq, lt_irrefl, false_or, true_and, false_and,
        or_false]
  · simp only [hg, bne_iff_ne, ne_eq, not_false_eq_true, if_true, decide_eq_true_eq, false_and,
      or_false]

theorem le_trans_of_le (s t u : LockedSource) (hst : s.le t) (htu : t.le u) : s.le u := by
  rw [le_iff] at hst htu ⊢
  exact hst.trans htu

theorem le_or_le (s t : LockedSource) : s.le t || t.le s := by
  rw [Bool.or_eq_true, le_iff, le_iff]
  exact le_total _ _

theorem le_of_key_eq (h : s.key = t.key) : s.le t := by
  simp only [key, Prod.mk.injEq] at h
  simp [le, h]

@[simp] theorem trimmed_trimmed (s : LockedSource) : s.trimmed.trimmed = s.trimmed := by
  simp [trimmed]

end LockedSource

namespace Lockfile

variable {l : Lockfile} {s : LockedSource} {key : String × String × String}

/-- The entry that is found for a key. -/
def lookup (l : Lockfile) (key : String × String × String) : Option LockedSource :=
  (l.sources.find? (hasKey key)).join

/-- No entry has blanks at the ends of its fields. -/
def IsTrimmed (l : Lockfile) : Prop := ∀ s, some s ∈ l.sources → s.trimmed = s

theorem find?_eq (l : Lockfile) (p : Prelude) :
    l.find? p = if p.isGit then l.lookup p.key else none := rfl

/-- What is found for a prelude was recorded under its key. -/
theorem key_of_find? {p : Prelude} (h : l.find? p = some s) : s.key = p.key := by
  rw [find?_eq] at h
  split_ifs at h
  have hfound : l.sources.find? (hasKey p.key) = some (some s) := Option.join_eq_some_iff.mp h
  simpa using List.find?_some hfound

/-! ## Entries that are put -/

theorem find?_putSource_self (sources : List (Option LockedSource)) :
    (putSource s sources).find? (hasKey s.key) = some (some s) := by
  induction sources with
  | nil => simp [putSource]
  | cons t rest ih =>
    unfold putSource
    split_ifs with h
    · simp
    · rw [List.find?_cons_of_neg h, ih]

theorem find?_putSource_of_ne (h : key ≠ s.key) (sources : List (Option LockedSource)) :
    (putSource s sources).find? (hasKey key) = sources.find? (hasKey key) := by
  have hs : ¬ hasKey key (some s) = true := by simpa using Ne.symm h
  induction sources with
  | nil => rw [putSource, List.find?_cons_of_neg hs]
  | cons t rest ih =>
    unfold putSource
    split_ifs with ht
    · -- The entry that is replaced has the key of the new one, so both are passed over.
      have ht' : ¬ hasKey key t = true := by
        cases t with
        | none => simp
        | some t =>
          rw [hasKey_some, beq_iff_eq] at ht
          simpa [ht] using Ne.symm h
      rw [List.find?_cons_of_neg hs, List.find?_cons_of_neg ht']
    · rw [List.find?_cons, List.find?_cons, ih]

theorem mem_putSource {u : LockedSource} {sources : List (Option LockedSource)}
    (h : some u ∈ putSource s sources) : u = s ∨ some u ∈ sources := by
  induction sources with
  | nil => simpa [putSource] using h
  | cons t rest ih =>
    unfold putSource at h
    split_ifs at h
    · grind
    · grind

@[simp] theorem lookup_put_self (l : Lockfile) (s : LockedSource) :
    (l.put s).lookup s.key = some s := by
  rw [lookup, put, find?_putSource_self]
  rfl

theorem lookup_put_of_ne (l : Lockfile) (h : key ≠ s.key) : (l.put s).lookup key = l.lookup key := by
  rw [lookup, put, find?_putSource_of_ne h, lookup]

theorem IsTrimmed.put (h : l.IsTrimmed) (hs : s.trimmed = s) : (l.put s).IsTrimmed := by
  intro u hu
  rcases mem_putSource hu with rfl | hu
  · exact hs
  · exact h u hu

/-! ## Sorting -/

theorem lookup_eq_find? (l : Lockfile) (key : String × String × String) :
    l.lookup key = (l.sources.filterMap id).find? (·.key == key) := by
  unfold lookup
  induction l.sources with
  | nil => rfl
  | cons t rest ih =>
    cases t with
    | none => rw [List.find?_cons_of_neg (by simp), ih, List.filterMap_cons_none rfl]
    | some t =>
      rw [List.filterMap_cons_some (f := id) rfl, List.find?_cons, List.find?_cons, hasKey_some]
      cases t.key == key
      · exact ih
      · rfl

/-- A stable sort keeps the order of the entries with one key. -/
theorem filter_mergeSort (entries : List LockedSource) (key : String × String × String) :
    (entries.mergeSort LockedSource.le).filter (·.key == key) = entries.filter (·.key == key) := by
  have hsorted : (entries.filter (·.key == key)).Pairwise (fun s t => s.le t) := by
    refine List.pairwise_of_forall_mem_list ?_
    intro s hs t ht
    rw [List.mem_filter, beq_iff_eq] at hs ht
    exact LockedSource.le_of_key_eq (hs.2.trans ht.2.symm)
  have hsublist : (entries.filter (·.key == key)).Sublist (entries.mergeSort LockedSource.le) :=
    List.sublist_mergeSort LockedSource.le_trans_of_le LockedSource.le_or_le hsorted
      List.filter_sublist
  have hfiltered : (entries.filter (·.key == key)).Sublist
      ((entries.mergeSort LockedSource.le).filter (·.key == key)) := by
    simpa using hsublist.filter (·.key == key)
  refine (hfiltered.eq_of_length ?_).symm
  exact ((List.mergeSort_perm entries LockedSource.le).filter _).length_eq.symm

theorem isTrimmed_normalize (l : Lockfile) : l.normalize.IsTrimmed := by
  intro s hs
  obtain ⟨t, ht, rfl⟩ := by
    simpa [normalize] using hs
  exact LockedSource.trimmed_trimmed t

/-- The lockfile with its entries trimmed, in their old order. -/
def stripped (l : Lockfile) : Lockfile :=
  { l with sources := l.sources.map (Option.map LockedSource.trimmed) }

/-- Trimming changes what is found only if blanks belong to an entry for the key. -/
theorem lookup_stripped
    (h : ∀ s, some s ∈ l.sources → s.key = key ∨ s.trimmed.key = key → s.trimmed = s) :
    l.stripped.lookup key = l.lookup key := by
  unfold lookup stripped
  dsimp only
  induction hsources : l.sources generalizing l with
  | nil => rfl
  | cons t rest ih =>
    have hrest : ∀ s, some s ∈ rest → s.key = key ∨ s.trimmed.key = key → s.trimmed = s :=
      fun s hs => h s (by simp [hsources, hs])
    have htail := @ih { l with sources := rest } hrest rfl
    cases t with
    | none => simpa using htail
    | some t =>
      have ht : t.key = key ∨ t.trimmed.key = key → t.trimmed = t := h t (by simp [hsources])
      by_cases hkey : t.key = key
      · simp [ht (.inl hkey), hkey]
      · have hkey' : t.trimmed.key ≠ key := by
          intro heq
          exact hkey (ht (.inr heq) ▸ heq)
        simpa [hkey, hkey'] using htail

/-- Sorting does not change what is found among the trimmed entries. -/
theorem lookup_normalize_eq (l : Lockfile) (key : String × String × String) :
    l.normalize.lookup key = l.stripped.lookup key := by
  have hkept : l.stripped.sources.filterMap id =
      (l.sources.filterMap id).map LockedSource.trimmed := by
    simp [stripped, List.filterMap_map, List.map_filterMap]
  rw [lookup_eq_find?, lookup_eq_find?, ← List.head?_filter, ← List.head?_filter, normalize, hkept]
  simp [filter_mergeSort]

/-- Sorting does not change what is found. -/
theorem lookup_normalize (h : l.IsTrimmed) : l.normalize.lookup key = l.lookup key :=
  (lookup_normalize_eq l key).trans (lookup_stripped fun s hs _ => h s hs)

/-! ## Lockfiles in files -/

variable {format : Format} {files files' : FileTree} {cwd cwd' path path' now : String}

theorem isTrimmed_of_load (h : load files cwd path format = .ok l) : l.IsTrimmed := by
  unfold load at h
  split_ifs at h
  dsimp only at h
  split at h
  · cases h
  · cases h
    exact isTrimmed_normalize _

/-- The text of a lockfile is read as the lockfile itself, to which its path is added. -/
def ReadsBack (l : Lockfile) (format : Format) : Prop :=
  (format.read (format.print l).toUTF8).map ({ · with path := l.path }) = .ok l

theorem ReadsBack.exists_eq (h : l.ReadsBack format) :
    ∃ given, format.read (format.print l).toUTF8 = .ok given ∧ { given with path := l.path } = l := by
  unfold ReadsBack at h
  cases hread : format.read (format.print l).toUTF8 with
  | error e =>
    rw [hread] at h
    cases h
  | ok given =>
    rw [hread] at h
    exact ⟨given, rfl, Except.ok.inj h⟩

/-- A lockfile is written in its prepared form, which is also what is left in memory. -/
theorem exists_prepared_of_write (h : (l.write files cwd path now format).2 = .ok files') :
    ∃ written, (l.write files cwd path now format).1 = l.prepared written now ∧
      written = Path.absolute cwd (if path = "" then l.path else path) ∧
      files.write cwd written (format.print (l.prepared written now)).toUTF8 = .ok files' := by
  unfold write at h ⊢
  dsimp only at h ⊢
  generalize (if path = "" then l.path else path) = target at h ⊢
  split_ifs at h ⊢ with htarget
  refine ⟨_, rfl, rfl, ?_⟩
  cases hw : files.write cwd (Path.absolute cwd target)
      (format.print (l.prepared (Path.absolute cwd target) now)).toUTF8 with
  | error e =>
    rw [hw] at h
    cases h
  | ok written =>
    rw [hw] at h
    cases h
    rfl

/--
A lockfile that was written is found again by every path that leads to it, with its fields trimmed
and sorted once more.
-/
theorem load_of_write (hwrite : (l.write files cwd path now format).2 = .ok files')
    (habsolute : Path.isAbsolute (l.write files cwd path now format).1.path)
    (hl : (l.write files cwd path now format).1.ReadsBack format) (hne : path' ≠ "")
    (hpath : Path.absolute cwd' path' = (l.write files cwd path now format).1.path) :
    load files' cwd' path' format =
      .ok (l.write files cwd path now format).1.trimmed.normalize := by
  obtain ⟨written, heq, -, hw⟩ := exists_prepared_of_write hwrite
  rw [heq] at habsolute hl hpath ⊢
  have hread : files'.read "/" written = .ok (format.print (l.prepared written now)).toUTF8 :=
    FileTree.read_of_write habsolute hw "/"
  have hpath' : Path.absolute cwd' path' = written := hpath
  obtain ⟨given, hgiven, hsame⟩ := hl.exists_eq
  have hsame' : { given with path := written } = l.prepared written now := hsame
  rw [load, if_neg hne]
  simp only [hpath', Yaml.load, hread, hgiven, Except.mapError, hsame']

theorem lookup_trimmed_prepared (h : l.IsTrimmed) (path now : String) :
    (l.prepared path now).trimmed.normalize.lookup key = l.lookup key := by
  have hprepared : (l.prepared path now).trimmed.IsTrimmed := isTrimmed_normalize _
  calc (l.prepared path now).trimmed.normalize.lookup key
    _ = (l.prepared path now).lookup key := lookup_normalize hprepared
    _ = l.lookup key := lookup_normalize h

end Lockfile

end Scriptlet
