import Scriptlet.Proofs.Files.Inside
import Scriptlet.Proofs.Files.Moving

/-!
# Directories that are made

The directories on the way to a path are made from the outside to the inside, each in the one before
it. So they are places on the way to the place of the path, and nothing was there. If all could be
made then the path leads to the last of them; otherwise those that were made first are still there.

## Main definitions

* `FileTree.Prepared`: two trees that differ in directories that were made on the way to a place

## Main statements

* `FileTree.prepared_makeDirs`, `FileTree.IsTree.makeDirs`: what making directories changes
* `FileTree.find_of_makeDirs`: where the path leads afterwards
-/

namespace Scriptlet.FileTree

variable {t t' t'' : FileTree} {base place inner q : List String} {cwd path step name : String}

/-! ## One directory -/

theorem keeps_put (h : t.entryAt? place = none) (e : Entry) : t.Keeps (t.put place e) := by
  intro q hq
  refine entryAt?_put_of_ne t e ?_
  rintro rfl
  simp [h] at hq

theorem IsTree.put_directory (h : t.IsTree) (hinner : t.entryAt? inner = some .directory)
    (hnone : t.entryAt? (inner ++ [name]) = none) :
    (t.put (inner ++ [name]) .directory).IsTree := by
  have hkept := keeps_put hnone .directory
  intro p q hq hne hp
  by_cases hplace : p = inner ++ [name]
  · subst hplace
    rcases List.prefix_concat_iff.mp hq with rfl | hq
    · exact absurd rfl hne
    · by_cases hqi : q = inner
      · exact hqi ▸ hkept.entryAt? hinner
      · exact hkept.entryAt? (h inner q hq hqi (by simp [hinner]))
  · rw [entryAt?_put_of_ne t _ hplace] at hp
    exact hkept.entryAt? (h p q hq hne hp)

/-- A directory that was made is where its path leads, and so is one that was there. -/
theorem find_of_makeDir (h : t.makeDir cwd path = .ok t') :
    ∃ place, t'.find cwd path = .entry place .directory := by
  unfold makeDir at h
  split at h
  · next place hfind =>
    cases h
    exact ⟨place, hfind⟩
  · cases h
  · next place hfind =>
    cases h
    obtain ⟨hpath, hwalk⟩ := find_eq_vacant_iff.mp hfind
    obtain ⟨front, name, inner, hsegments, hfront, hnext, rfl, hnone⟩ := exists_of_walk_vacant hwalk
    have hkept := keeps_put hnone .directory
    have hmade := entryAt?_put_self t .directory (show inner ++ [name] ≠ [] by simp)
    refine ⟨inner ++ [name], find_eq_entry_iff.mpr ⟨hpath, ?_⟩⟩
    rw [hsegments]
    exact walk_append (hkept.walk hfront) (walk_cons_eq_entry_iff.mpr
      ⟨hkept.entryAt? (entryAt?_of_walk_entry hfront), _, hnext, walk_nil_eq_entry_iff.mpr ⟨hmade, rfl⟩⟩)
  · cases h

/-! ## Directories on the way to a place -/

theorem not_prefix_of_below {s : String} (h : base ++ [s] <+: q) : ¬ q <+: base := by
  intro hq
  have hlength := (h.trans hq).length_le
  simp at hlength

/-- Directories may have been made on the way to the place `base`, and nothing else has changed. -/
structure Prepared (base : List String) (t t' : FileTree) : Prop where
  outside : SameOutside base t t'
  old : t.Keeps t'
  below {s : String} {q : List String} (h : base ++ [s] <+: q) : t'.entryAt? q = t.entryAt? q

theorem prepared_refl (base : List String) (t : FileTree) : Prepared base t t :=
  ⟨.refl _ _, .refl t, fun _ => rfl⟩

theorem Prepared.trans (h : Prepared base t t') (h' : Prepared base t' t'') : Prepared base t t'' :=
  ⟨h.outside.trans h'.outside, h.old.trans h'.old, fun hq => (h'.below hq).trans (h.below hq)⟩

theorem prepared_put (hp : place <+: base) (hnone : t.entryAt? place = none) :
    Prepared base t (t.put place .directory) where
  outside q hq := by
    by_cases hqp : q = place
    · subst hqp
      have hne : q ≠ [] := by
        rintro rfl
        simp at hnone
      exact .inr ⟨hp, hnone, entryAt?_put_self t _ hne⟩
    · exact .inl (entryAt?_put_of_ne t _ hqp)
  old := keeps_put hnone _
  below hq := by
    refine entryAt?_put_of_ne t _ ?_
    rintro rfl
    exact not_prefix_of_below hq hp

/-- Also in a directory that was made, nothing is below a vacant place. -/
theorem Prepared.eq_none {s : String} (h : Prepared base t t') (htree : t.IsTree)
    (hq : base ++ [s] <+: q) (hnone : t'.entryAt? (base ++ [s]) = none) : t'.entryAt? q = none := by
  rw [h.below List.prefix_rfl] at hnone
  rw [h.below hq, htree.eq_none hnone hq]

theorem exists_of_mem_steps (h : step ∈ steps path) : ∃ n,
    step = Path.ofSegments (Path.isAbsolute path) ((Path.cleanSegments path).take (n + 1)) := by
  obtain ⟨n, -, rfl⟩ := List.mem_map.mp h
  exact ⟨n, rfl⟩

/-- What is missing is named by the last segment of its path. -/
theorem exists_of_find_vacant {rooted : Bool} {ss : List String}
    (hs : ∀ s ∈ ss, s ≠ "" ∧ '/' ∉ s.toList)
    (h : t.find cwd (Path.ofSegments rooted ss) = .vacant place) :
    ∃ front name, ss = front ++ [name] ∧ name ≠ ".." := by
  obtain ⟨-, hwalk⟩ := find_eq_vacant_iff.mp h
  have hlast {inner : List String} {name : String} (hnext : next? inner name = some (inner ++ [name])) :
      name ≠ "." ∧ name ≠ ".." := by
    constructor
    · rintro rfl
      simp [next?] at hnext
    · rintro rfl
      have hlength := congrArg List.length (Option.some.inj hnext)
      simp at hlength
  by_cases hfront : rooted = true ∨ ss ≠ []
  · rw [startOf, Path.isAbsolute_ofSegments hs, walk_ofSegments hfront fun s hmem => (hs s hmem).2]
      at hwalk
    obtain ⟨front, name, inner, rfl, -, hnext, rfl, -⟩ := exists_of_walk_vacant hwalk
    exact ⟨front, name, rfl, (hlast hnext).2⟩
  · -- The path is `.`, and no directory is missing there.
    obtain ⟨rfl, rfl⟩ : rooted = false ∧ ss = [] := by simpa using hfront
    rw [show Path.segments (Path.ofSegments false []) = ["."] from rfl] at hwalk
    obtain ⟨front, name, inner, hdot, -, hnext, rfl, -⟩ := exists_of_walk_vacant hwalk
    obtain rfl : name = "." := by
      have hmem : name ∈ ["."] := hdot ▸ (by simp)
      simpa using hmem
    exact absurd rfl (hlast hnext).1

/-- What is missing of a path lies on the way to the place of the path. -/
theorem prefix_of_find_vacant (hc : Path.isAbsolute cwd) (hstep : step ∈ steps path)
    (h : t.find cwd step = .vacant place) :
    place <+: Path.cleanSegments (Path.absolute cwd path) := by
  obtain ⟨n, rfl⟩ := exists_of_mem_steps hstep
  have hplace := place_of_find_vacant hc h
  have hall : ∀ s ∈ Path.cleanSegments path, s ≠ "" ∧ '/' ∉ s.toList := fun s =>
    Path.no_slash_of_mem_cleanSegments
  have htake : ∀ s ∈ (Path.cleanSegments path).take (n + 1), s ≠ "" ∧ '/' ∉ s.toList := fun s hs =>
    hall s (List.mem_of_mem_take hs)
  obtain ⟨front, name, hfront, hname⟩ := exists_of_find_vacant htake h
  have hsplit := List.take_append_drop (n + 1) (Path.cleanSegments path)
  have hrest : ∀ s ∈ (Path.cleanSegments path).drop (n + 1), Path.IsName s := by
    have hclean := Path.clean_cleanSegments path
    rw [← hsplit, hfront, List.reverse_append, List.reverse_append, List.reverse_singleton,
      List.singleton_append] at hclean
    simpa using hclean.isName_of_append hname
  have hstart : Path.isAbsolute (Path.ofSegments (Path.isAbsolute path)
      ((Path.cleanSegments path).take (n + 1))) = Path.isAbsolute path :=
    Path.isAbsolute_ofSegments htake
  rw [Path.cleanSegments_absolute hc, hstart,
    Path.foldl_segments_ofSegments _ fun s hs => (htake s hs).2] at hplace
  rw [← Path.cleanSegments_absolute_clean hc, Path.cleanSegments_absolute hc,
    Path.isAbsolute_clean_eq, Path.clean, Path.foldl_segments_ofSegments _ fun s hs => (hall s hs).2]
  rw [← hsplit, List.foldl_append, Path.foldl_enter_names hrest, List.reverse_append, List.reverse_reverse,
    ← hplace]
  exact List.prefix_append _ _

/-- One of the directories of a path is made, unless it is there. -/
theorem prepared_makeDir (hc : Path.isAbsolute cwd) (hstep : step ∈ steps path)
    (h : t.makeDir cwd step = .ok t') :
    Prepared (Path.cleanSegments (Path.absolute cwd path)) t t' ∧ (t.IsTree → t'.IsTree) := by
  unfold makeDir at h
  split at h
  · cases h
    exact ⟨prepared_refl _ _, id⟩
  · cases h
  · next place hfind =>
    cases h
    obtain ⟨-, hwalk⟩ := find_eq_vacant_iff.mp hfind
    obtain ⟨_, _, inner, -, hfront, -, rfl, hnone⟩ := exists_of_walk_vacant hwalk
    exact ⟨prepared_put (prefix_of_find_vacant hc hstep hfind) hnone,
      fun htree => htree.put_directory (entryAt?_of_walk_entry hfront) hnone⟩
  · cases h

theorem prepared_makeEach (hc : Path.isAbsolute cwd) {paths : List String}
    (hpaths : ∀ step ∈ paths, step ∈ steps path) (t : FileTree) :
    Prepared (Path.cleanSegments (Path.absolute cwd path)) t (t.makeEach cwd paths).2 ∧
      (t.IsTree → (t.makeEach cwd paths).2.IsTree) := by
  induction paths generalizing t with
  | nil => exact ⟨prepared_refl _ _, id⟩
  | cons step rest ih =>
    rw [List.forall_mem_cons] at hpaths
    unfold makeEach
    cases hmake : t.makeDir cwd step with
    | error e => exact ⟨prepared_refl _ _, id⟩
    | ok made =>
      obtain ⟨hprepared, htree⟩ := prepared_makeDir hc hpaths.1 hmake
      obtain ⟨hrest, htree'⟩ := ih hpaths.2 made
      exact ⟨hprepared.trans hrest, fun h => htree' (htree h)⟩

theorem find_of_makeEach {paths : List String} (hlast : paths.getLast? = some path)
    (h : (t.makeEach cwd paths).1 = .ok ()) :
    ∃ place, (t.makeEach cwd paths).2.find cwd path = .entry place .directory := by
  induction paths generalizing t with
  | nil => cases hlast
  | cons step rest ih =>
    unfold makeEach at h ⊢
    cases hmake : t.makeDir cwd step with
    | error e => simp [hmake] at h
    | ok made =>
      simp only [hmake] at h ⊢
      cases rest with
      | nil =>
        obtain rfl : step = path := by simpa using hlast
        exact find_of_makeDir hmake
      | cons step' rest => exact ih (by simpa using hlast) h

/-! ## All directories of a path -/

/-- Whether all directories of a path can be made or not, they are made on the way to its place only. -/
theorem prepared_makeDirs (hc : Path.isAbsolute cwd) (t : FileTree) (path : String) :
    Prepared (Path.cleanSegments (Path.absolute cwd path)) t (t.makeDirs cwd path).2 :=
  (prepared_makeEach hc (fun _ => id) t).1

theorem IsTree.makeDirs (h : t.IsTree) (hc : Path.isAbsolute cwd) (path : String) :
    (t.makeDirs cwd path).2.IsTree :=
  (prepared_makeEach hc (fun _ => id) t).2 h

theorem getLast?_steps (path : String) : (steps path).getLast? = some (Path.clean path) := by
  have hlength : max (Path.cleanSegments path).length 1 - 1 + 1 =
      max (Path.cleanSegments path).length 1 := Nat.sub_add_cancel (le_max_right _ _)
  have hall : (Path.cleanSegments path).take (max (Path.cleanSegments path).length 1) =
      Path.cleanSegments path := List.take_of_length_le (le_max_left _ _)
  have hne : max (Path.cleanSegments path).length 1 ≠ 0 := by omega
  simp only [steps, List.getLast?_map, List.getLast?_range, if_neg hne, Option.map_some, hlength, hall]
  rfl

/-- The path leads to its place if all of its directories could be made. -/
theorem find_of_makeDirs (hc : Path.isAbsolute cwd) (h : (t.makeDirs cwd path).1 = .ok ()) :
    (t.makeDirs cwd path).2.find cwd (Path.clean path) =
      .entry (Path.cleanSegments (Path.absolute cwd path)) .directory := by
  obtain ⟨place, hfind⟩ := find_of_makeEach (getLast?_steps path) h
  rw [← Path.cleanSegments_absolute_clean hc, ← place_of_find_entry hc hfind]
  exact hfind

end Scriptlet.FileTree
