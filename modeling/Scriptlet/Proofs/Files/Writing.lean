import Mathlib
import Scriptlet.Files.Tree

/-!
# Files that were written

A file that was written can be read back, and has the bytes that were written. Where an absolute path
leads does not depend on the current directory, so it does not matter from where it is read.

## Main statements

* `Path.isAbsolute_absolute`, `Path.isAbsolute_dir`: paths that stay absolute
* `FileTree.walk_put`: a walk to a place where a file was put
* `FileTree.read_of_write`: a file that was written has the bytes that were written
-/

namespace Scriptlet

namespace Path

variable {path a cwd : String}

theorem isAbsolute_clean (h : isAbsolute path) : isAbsolute (clean path) := by
  rw [clean, h, ofSegments, if_pos rfl, isAbsolute, String.toList_append]
  rfl

theorem ne_empty_of_isAbsolute (h : isAbsolute path) : path ≠ "" := by
  rintro rfl
  cases h

theorem isAbsolute_join (h : isAbsolute a) (b : String) : isAbsolute (join a b) := by
  have ha : a ≠ "" := ne_empty_of_isAbsolute h
  have happend : isAbsolute (a ++ "/" ++ b) := by
    simp only [isAbsolute, decide_eq_true_eq] at h ⊢
    simp [h]
  unfold join
  split_ifs with h₁ h₂
  · exact absurd h₁.1 ha
  · exact isAbsolute_clean h
  · exact isAbsolute_clean happend

theorem isAbsolute_absolute (h : isAbsolute cwd) (path : String) : isAbsolute (absolute cwd path) := by
  unfold absolute
  split_ifs with hp
  · exact isAbsolute_clean hp
  · exact isAbsolute_join h path

theorem isAbsolute_dir (h : isAbsolute path) : isAbsolute (dir path) := by
  refine isAbsolute_clean ?_
  simp only [isAbsolute, decide_eq_true_eq, String.toList_ofList] at h ⊢
  change (path.toList.rdropWhile (· != '/')).head? = some '/'
  have hne : path.toList.rdropWhile (· != '/') ≠ [] := by
    rw [ne_eq, List.rdropWhile_eq_nil_iff]
    intro hall
    simpa using hall '/' (List.mem_of_head? h)
  obtain ⟨rest, hrest⟩ := List.rdropWhile_prefix (· != '/') path.toList
  rwa [← hrest, List.head?_append_of_ne_nil _ hne] at h

end Path

namespace FileTree

variable {t t' : FileTree} {start place : List String} {segments : List String} {old bytes : ByteArray}
  {path cwd : String}

/-- A walk ends at a file, or at a place in a directory where nothing is. -/
def Reaches (t : FileTree) (start segments place : List String) : Prop :=
  (∃ old, t.walk start segments = .entry place (.file old)) ∨ t.walk start segments = .vacant place

theorem entryAt?_of_walk_entry {e : Entry} (h : t.walk start segments = .entry place e) :
    t.entryAt? place = some e := by
  fun_induction walk t start segments <;> simp_all

theorem entryAt?_of_walk_vacant (h : t.walk start segments = .vacant place) :
    t.entryAt? place = none := by
  fun_induction walk t start segments <;> simp_all

theorem Reaches.entryAt?_ne (h : t.Reaches start segments place) :
    t.entryAt? place ≠ some .directory := by
  rcases h with ⟨old, h⟩ | h
  · simp [entryAt?_of_walk_entry h]
  · simp [entryAt?_of_walk_vacant h]

theorem entryAt?_put_of_directory {q : List String} {e : Entry}
    (hplace : t.entryAt? place ≠ some .directory) (hq : t.entryAt? q = some .directory) :
    (t.put place e).entryAt? q = some .directory := by
  have hne : q ≠ place := by
    rintro rfl
    exact hplace hq
  rw [entryAt?_put_of_ne t e hne, hq]

theorem isSome_entryAt?_put {q : List String} {e : Entry} (hq : (t.entryAt? q).isSome) :
    ((t.put place e).entryAt? q).isSome := by
  by_cases hne : q = place
  · subst hne
    cases q with
    | nil => rfl
    | cons segment rest => rw [entryAt?_put_self t e (List.cons_ne_nil _ _), Option.isSome_some]
  · rwa [entryAt?_put_of_ne t e hne]

/-- A walk to a place ends at the file that is put there. -/
theorem walk_put (h : t.Reaches start segments place) :
    (t.put place (.file bytes)).walk start segments = .entry place (.file bytes) := by
  have hplace : t.entryAt? place ≠ some .directory := h.entryAt?_ne
  have hself : (t.put place (.file bytes)).entryAt? place = some (.file bytes) := by
    refine entryAt?_put_self t _ ?_
    rintro rfl
    exact hplace rfl
  induction segments generalizing start with
  | nil =>
    have hstart : start = place := by
      unfold Reaches walk at h
      cases he : t.entryAt? start <;> simp_all
    rw [walk, hstart, hself]
  | cons segment rest ih =>
    have hstart : t.entryAt? start = some .directory := by
      unfold Reaches walk at h
      rcases he : t.entryAt? start with _ | (_ | _) <;> simp_all
    unfold Reaches walk at h
    rw [walk, entryAt?_put_of_directory hplace hstart]
    simp only [hstart] at h ⊢
    by_cases hskip : segment = "" ∨ segment = "."
    · simp only [if_pos hskip] at h ⊢
      exact ih h
    by_cases hup : segment = ".."
    · simp only [if_neg hskip, if_pos hup] at h ⊢
      exact ih h
    by_cases hlong : segment.utf8ByteSize > 255
    · simp [if_neg hskip, if_neg hup, if_pos hlong] at h
    simp only [if_neg hskip, if_neg hup, if_neg hlong] at h ⊢
    by_cases hinner : (t.entryAt? (start ++ [segment])).isSome
    · simp only [if_pos hinner, if_pos (isSome_entryAt?_put hinner)] at h ⊢
      exact ih h
    · -- Nothing is there yet, so this is the last segment and the place itself.
      simp only [if_neg hinner] at h
      cases rest with
      | nil =>
        have hend : start ++ [segment] = place := by simpa using h
        simp [hend, hself, walk]
      | cons _ _ => simp at h

theorem find_eq_of_isAbsolute (h : Path.isAbsolute path) (cwd' : String) :
    t.find cwd path = t.find cwd' path := by
  simp [find, h]

theorem find_put (h : (∃ old, t.find cwd path = .entry place (.file old)) ∨
    t.find cwd path = .vacant place) :
    (t.put place (.file bytes)).find cwd path = .entry place (.file bytes) := by
  unfold find at h ⊢
  split_ifs at h ⊢
  · simp at h
  · simp at h
  · simp at h
  · exact walk_put h
  · exact walk_put h

/-- A file that was written has the bytes that were written. -/
theorem read_of_write (h : Path.isAbsolute path) (hw : t.write cwd path bytes = .ok t')
    (cwd' : String) : t'.read cwd' path = .ok bytes := by
  rw [write, find_eq_of_isAbsolute h cwd'] at hw
  split at hw
  · next place old hplace =>
    cases hw
    rw [read, find_put (.inl ⟨old, hplace⟩)]
  · next place hplace =>
    cases hw
    rw [read, find_put (.inr hplace)]
  · cases hw
  · cases hw

end FileTree

end Scriptlet
