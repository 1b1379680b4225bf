import Scriptlet.Proofs.Files.Following

/-!
# Files inside of a directory

A path stays inside of the directory that it is followed from unless one of its `..` leaves what its
segments so far have entered. Joined with a directory, such a path comes after the segments of the
directory. So it can only lead somewhere if the directory is there. The other way around, what is in a
directory is found by its name, as long as the path with the name is not too long.

## Main definitions

* `Path.StaysInside`: the paths that stay inside

## Main statements

* `Path.foldl_enter_append`: the segments of a path that stays inside come after all others
* `FileTree.exists_find_of_join`: a directory with a file in it is there
* `FileTree.find_join`: an entry of a directory is found by its name
-/

namespace Scriptlet

namespace Path

variable {rooted : Bool} {above ss : List String} {s a file : String}

/-- From wherever it is followed, the path does not lead out of that directory. -/
def StaysInside (file : String) : Prop := ".." ∉ (segments file).foldl (enter false) []

instance (file : String) : Decidable (StaysInside file) := inferInstanceAs (Decidable (_ ∉ _))

/-- What has led out does not come back. -/
theorem mem_enter_of_mem (h : ".." ∈ above) (s : String) : ".." ∈ enter false above s := by
  by_cases hskip : s = "" ∨ s = "."
  · simpa [enter, hskip] using h
  by_cases hup : s = ".."
  · cases above with
    | nil => cases h
    | cons a rest =>
      by_cases ha : a = ".."
      · simp [enter, hup, ha]
      · simpa [enter, hup, ha, Ne.symm ha] using h
  · simp [enter, hskip, hup, h]

theorem enter_append (h : ".." ∉ enter false ss s) :
    enter rooted (ss ++ above) s = enter false ss s ++ above := by
  by_cases hskip : s = "" ∨ s = "."
  · simp [enter, hskip]
  by_cases hup : s = ".."
  · subst hup
    cases ss with
    | nil => exact absurd List.mem_cons_self h
    | cons a rest =>
      by_cases ha : a = ".."
      · simp [ha, enter] at h
      · simp [enter, ha]
  · simp [enter, hskip, hup]

/-- The segments of a path that stays inside come after all others. -/
theorem foldl_enter_append (h : ".." ∉ ss.foldl (enter false) []) :
    ss.foldl (enter rooted) above = ss.foldl (enter false) [] ++ above := by
  induction ss using List.reverseRecOn with
  | nil => rfl
  | append_singleton ss s ih =>
    rw [List.foldl_append] at h ⊢
    rw [List.foldl_append, ih fun hmem => h (mem_enter_of_mem hmem s)]
    exact enter_append h

theorem StaysInside.join_eq (h : StaysInside file) (ha : a ≠ "") : join a file =
    ofSegments (isAbsolute a)
      (cleanSegments a ++ ((segments file).foldl (enter false) []).reverse) := by
  by_cases hfile : file = ""
  · subst hfile
    have hempty : segments "" = [""] := rfl
    simp [join, ha, clean, hempty]
  · rw [join, if_neg (by simp [ha]), if_neg ha, if_neg hfile, clean, isAbsolute_append ha,
      cleanSegments_append ha, foldl_enter_append h, List.reverse_append, List.reverse_reverse]

theorem segments_ofSegments_false (hne : ss ≠ []) (hs : ∀ s ∈ ss, '/' ∉ s.toList) :
    segments (ofSegments false ss) = ss := by
  rw [ofSegments, if_neg (by simp), if_neg (by simpa using hne), segments_intercalate hne hs]

theorem ofSegments_ne_empty (hs : ∀ s ∈ ss, s ≠ "" ∧ '/' ∉ s.toList) :
    ofSegments rooted ss ≠ "" := by
  cases rooted with
  | true => simp [ofSegments]
  | false =>
    by_cases hne : ss = []
    · simp [ofSegments, hne]
    · intro he
      have hsegments := segments_ofSegments_false hne fun s hmem => (hs s hmem).2
      rw [he, show segments "" = [""] from rfl] at hsegments
      exact (hs "" (by simp [← hsegments])).1 rfl

theorem clean_ne_empty (path : String) : clean path ≠ "" :=
  ofSegments_ne_empty fun _ => no_slash_of_mem_cleanSegments

theorem exists_join_eq_clean (a : String) {b : String} (hb : b ≠ "") : ∃ path, join a b = clean path := by
  unfold join
  split_ifs with h₁ h₂
  · exact absurd h₁.2 hb
  · exact ⟨b, rfl⟩
  · exact ⟨a ++ "/" ++ b, rfl⟩

/-- A path that comes of joining is clean. -/
theorem clean_join (a : String) {b : String} (hb : b ≠ "") : clean (join a b) = join a b := by
  obtain ⟨path, hpath⟩ := exists_join_eq_clean a hb
  rw [hpath, clean_clean]

theorem join_ne_empty_of_right (a : String) {b : String} (hb : b ≠ "") : join a b ≠ "" := by
  obtain ⟨path, hpath⟩ := exists_join_eq_clean a hb
  rw [hpath]
  exact clean_ne_empty path

end Path

namespace FileTree

variable {t : FileTree} {cwd a file name : String} {rooted : Bool}
  {start place inner ss ts : List String} {e : Entry}

theorem exists_ofSegments_append (h : rooted = true ∨ ss ≠ []) (ts : List String) :
    ∃ rest, Path.ofSegments rooted (ss ++ ts) = Path.ofSegments rooted ss ++ rest := by
  induction ts using List.reverseRecOn with
  | nil => exact ⟨"", by simp⟩
  | append_singleton ts s ih =>
    obtain ⟨rest, hrest⟩ := ih
    by_cases hne : ss ++ ts = []
    · obtain ⟨rfl, rfl⟩ := List.append_eq_nil_iff.mp hne
      obtain rfl : rooted = true := by simpa using h
      exact ⟨s, by simp [Path.ofSegments]⟩
    · refine ⟨rest ++ "/" ++ s, ?_⟩
      rw [← List.append_assoc, Path.ofSegments_concat hne, hrest]
      simp only [String.append_assoc]

/-- The path of some segments is followed segment by segment. -/
theorem walk_ofSegments (h : rooted = true ∨ ss ≠ []) (hs : ∀ s ∈ ss, '/' ∉ s.toList) :
    t.walk (if rooted then [] else start) (Path.segments (Path.ofSegments rooted ss)) =
      t.walk (if rooted then [] else start) ss := by
  cases rooted with
  | true => exact walk_segments_ofSegments hs
  | false => rw [Path.segments_ofSegments_false (by simpa using h) hs]

theorem exists_walk_of_ofSegments (hs : ∀ s ∈ ss ++ ts, '/' ∉ s.toList)
    (h : t.walk (if rooted then [] else start) (Path.segments (Path.ofSegments rooted (ss ++ ts))) =
      .entry place e) :
    ∃ place' e', t.walk (if rooted then [] else start) (Path.segments (Path.ofSegments rooted ss)) =
      .entry place' e' := by
  have hss : ∀ s ∈ ss, '/' ∉ s.toList := fun s hmem => hs s (List.mem_append_left _ hmem)
  by_cases hfront : rooted = true ∨ ss ≠ []
  · rw [walk_ofSegments (hfront.imp_right fun hne => by simp [hne]) hs] at h
    obtain ⟨inner, e', hinner, -⟩ := exists_walk_of_append h
    exact ⟨inner, e', (walk_ofSegments hfront hss).trans hinner⟩
  · obtain ⟨rfl, rfl⟩ : rooted = false ∧ ss = [] := by simpa using hfront
    cases ts with
    | nil => exact ⟨place, e, h⟩
    | cons s ts =>
      -- The path is `.`, and something is followed from there.
      rw [walk_ofSegments (.inr (by simp)) hs] at h
      have hstart := (walk_cons_eq_entry_iff.mp h).1
      rw [show Path.segments (Path.ofSegments false []) = ["."] from rfl]
      exact ⟨_, .directory, walk_cons_eq_entry_iff.mpr
        ⟨hstart, _, rfl, walk_nil_eq_entry_iff.mpr ⟨hstart, rfl⟩⟩⟩

/-- Where a path leads to something, each path above it does. -/
theorem exists_find_of_append (hs : ∀ s ∈ ss ++ ts, s ≠ "" ∧ '/' ∉ s.toList)
    (h : t.find cwd (Path.ofSegments rooted (ss ++ ts)) = .entry place e) :
    ∃ place' e', t.find cwd (Path.ofSegments rooted ss) = .entry place' e' := by
  have hss : ∀ s ∈ ss, s ≠ "" ∧ '/' ∉ s.toList := fun s hmem => hs s (List.mem_append_left _ hmem)
  simp only [find_eq_entry_iff, startOf, Path.isAbsolute_ofSegments hs,
    Path.isAbsolute_ofSegments hss] at h ⊢
  obtain ⟨⟨-, hnul, hlong⟩, hwalk⟩ := h
  obtain ⟨inner, e', hinner⟩ := exists_walk_of_ofSegments (fun s hmem => (hs s hmem).2) hwalk
  refine ⟨inner, e', ?_, hinner⟩
  by_cases hfront : rooted = true ∨ ss ≠ []
  · obtain ⟨rest, hrest⟩ := exists_ofSegments_append hfront ts
    rw [hrest, String.toList_append, List.mem_append, not_or] at hnul
    rw [hrest, String.utf8ByteSize_append] at hlong
    exact ⟨Path.ofSegments_ne_empty hss, hnul.1, by omega⟩
  · obtain ⟨rfl, rfl⟩ : rooted = false ∧ ss = [] := by simpa using hfront
    exact ⟨by decide, by decide, by decide⟩

/-- A directory with a file in it is there. -/
theorem exists_find_of_join (ha : Path.clean a = a) (hne : a ≠ "") (hfile : Path.StaysInside file)
    (h : t.find cwd (Path.join a file) = .entry place e) :
    ∃ place' e', t.find cwd a = .entry place' e' := by
  rw [hfile.join_eq hne] at h
  rw [← ha, Path.clean]
  refine exists_find_of_append (fun s hmem => ?_) h
  rcases List.mem_append.mp hmem with hmem | hmem
  · exact Path.no_slash_of_mem_cleanSegments hmem
  · have hinner : Path.Clean false ((Path.segments file).foldl (Path.enter false) []) :=
      Path.clean_foldl .nil fun s => Path.not_mem_of_mem_segments
    exact hinner.no_slash s (by simpa using hmem)

/-- A clean path leads to a directory if its segments do. -/
theorem walk_cleanSegments (ha : Path.clean a = a)
    (hw : t.walk (startOf cwd a) (Path.segments a) = .entry inner .directory) :
    t.walk (startOf cwd a) (Path.cleanSegments a) = .entry inner .directory := by
  have hs : ∀ s ∈ Path.cleanSegments a, '/' ∉ s.toList :=
    fun s hs => (Path.no_slash_of_mem_cleanSegments hs).2
  by_cases hfront : Path.isAbsolute a = true ∨ Path.cleanSegments a ≠ []
  · rw [startOf, ← walk_ofSegments hfront hs]
    rwa [← Path.clean, ha]
  · -- The path is `.`, so it leads to where it is followed from.
    obtain ⟨habs, hnil⟩ : Path.isAbsolute a = false ∧ Path.cleanSegments a = [] := by
      simpa using hfront
    have hdot : a = "." := by
      rw [← ha, Path.clean, habs, hnil]
      rfl
    subst hdot
    rw [show Path.segments "." = ["."] from rfl, walk_cons_eq_entry_iff] at hw
    obtain ⟨-, next, hnext, hw⟩ := hw
    obtain rfl : startOf cwd "." = next := by simpa [next?] using hnext
    exact hw

/-- An entry of a directory is found by the path of the directory with its name, if that is short. -/
theorem find_join (ha : Path.clean a = a) (hdir : t.find cwd a = .entry inner .directory)
    (hname : Path.IsName name) (hshort : name.utf8ByteSize ≤ 255)
    (hpath : IsFollowed (Path.join a name))
    (he : t.entryAt? (inner ++ [name]) = some e) :
    t.find cwd (Path.join a name) = .entry (inner ++ [name]) e := by
  obtain ⟨-, hw⟩ := find_eq_entry_iff.mp hdir
  have hlast : t.walk inner [name] = .entry (inner ++ [name]) e :=
    walk_cons_eq_entry_iff.mpr ⟨entryAt?_of_walk_entry hw, _,
      (next?_name hname).mpr ⟨hshort, rfl⟩, walk_nil_eq_entry_iff.mpr ⟨he, rfl⟩⟩
  have hs : ∀ s ∈ Path.cleanSegments a ++ [name], '/' ∉ s.toList := by
    rw [← Path.cleanSegments_join_name a hname]
    exact fun s hs => (Path.no_slash_of_mem_cleanSegments hs).2
  refine find_eq_entry_iff.mpr ⟨hpath, ?_⟩
  rw [startOf, Path.isAbsolute_join_name a hname, Path.join_name a hname, walk_ofSegments (.inr (by simp)) hs]
  exact walk_append (walk_cleanSegments ha hw) hlast

end FileTree

end Scriptlet
