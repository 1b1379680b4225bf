import Scriptlet.Proofs.Files.Joining
import Scriptlet.Proofs.Files.Writing

/-!
# Going up

The path above a clean path from the root has the same segments but the last. At the root the path
above is the root itself, so going up from any absolute path ends there, after as many steps as there
are segments.

## Main definitions

* `Path.Ascends`: the paths on the way up, until a path is the one above itself

## Main statements

* `Path.dir_ofSegments_concat`, `Path.dir_root`: the path above
* `Path.ascends_iff`: the way up from a path, which is the only one
-/

namespace Scriptlet.Path

variable {rooted : Bool} {path name cwd : String} {ss rs ds ds' : List String}

/--
The paths on the way up from a path: it is followed by the path above it, as long as that is another
one.
-/
inductive Ascends : String → List String → Prop where
  | root {path : String} (h : dir path = path) : Ascends path [path]
  | up {path : String} {ds : List String} (h : dir path ≠ path) (hup : Ascends (dir path) ds) :
      Ascends path (path :: ds)

/-! ## Names from the root -/

/-- All segments of a clean path from the root are names. -/
theorem Clean.isName (h : Clean rooted ss) (hr : rooted = true) : ∀ s ∈ ss, IsName s := by
  induction h with
  | nil => simp
  | up hr' => simp [hr] at hr'
  | name hs _ ih => exact List.forall_mem_cons.mpr ⟨hs, ih⟩

theorem clean_of_isName (hs : ∀ s ∈ ss, IsName s) (rooted : Bool) : Clean rooted ss := by
  induction ss with
  | nil => exact .nil
  | cons s ss ih =>
    rw [List.forall_mem_cons] at hs
    exact .name hs.1 (ih hs.2)

theorem isName_of_mem_cleanSegments (h : isAbsolute path) {s : String}
    (hs : s ∈ cleanSegments path) : IsName s := by
  exact (clean_cleanSegments path).isName h s (by simpa using hs)

theorem isAbsolute_ofSegments_of_isName (hs : ∀ s ∈ ss, IsName s) : isAbsolute (ofSegments true ss) :=
  isAbsolute_ofSegments fun s h => ⟨(hs s h).ne_empty, (hs s h).no_slash⟩

/-- The path of some names has these segments. -/
theorem cleanSegments_ofSegments (hs : ∀ s ∈ ss, IsName s) :
    cleanSegments (ofSegments true ss) = ss := by
  have hclean : Clean true ss.reverse := clean_of_isName (by simpa using hs) true
  have hfold := hclean.foldl_reverse
  rw [List.reverse_reverse] at hfold
  rw [cleanSegments, isAbsolute_ofSegments_of_isName hs,
    foldl_segments_ofSegments true fun s h => (hs s h).no_slash, hfold, List.reverse_reverse]

theorem clean_eq_ofSegments (h : isAbsolute path) :
    clean path = ofSegments true (cleanSegments (clean path)) := by
  rw [cleanSegments_clean, clean, h]

/-- Seen from an absolute path, any path is absolute and clean. -/
theorem absolute_eq_ofSegments (h : isAbsolute cwd) (path : String) :
    absolute cwd path = ofSegments true (cleanSegments (absolute cwd path)) := by
  have hne : cwd ≠ "" := ne_empty_of_isAbsolute h
  unfold absolute
  split_ifs with hp
  · exact clean_eq_ofSegments hp
  · unfold join
    split_ifs with h₁ h₂
    · exact absurd h₁.1 hne
    · exact clean_eq_ofSegments h
    · refine clean_eq_ofSegments ?_
      rw [isAbsolute_append hne, h]

/-! ## The path above -/

theorem dir_root : dir (ofSegments true []) = ofSegments true [] := by decide

/-- What is in front of the last slash is the path above. -/
theorem dir_append (front : String) (hn : IsName name) :
    dir (front ++ "/" ++ name) = clean (front ++ "/") := by
  have hlast : ∀ c ∈ name.toList.reverse, (c != '/') = true := by
    intro c hc
    simpa using ne_of_mem_of_not_mem (List.mem_reverse.mp hc) hn.no_slash
  have hchars : (front ++ "/" ++ name).toList.reverse =
      name.toList.reverse ++ '/' :: front.toList.reverse := by simp
  have hfront : ('/' :: front.toList.reverse).reverse = (front ++ "/").toList := by simp
  simp only [dir, hchars]
  rw [List.dropWhile_append_of_pos hlast, List.dropWhile_cons_of_neg (by simp), hfront,
    String.ofList_toList]

/-- The path above has the same segments but the last. -/
theorem dir_ofSegments_concat (hs : ∀ s ∈ ss, IsName s) (hn : IsName name) :
    dir (ofSegments true (ss ++ [name])) = ofSegments true ss := by
  rcases eq_or_ne ss [] with rfl | hne
  · have hroot : ofSegments true ([] ++ [name]) = "" ++ "/" ++ name := by simp [ofSegments]
    rw [hroot, dir_append "" hn]
    decide
  · have habs := isAbsolute_ofSegments_of_isName hs
    have hslash : ofSegments true ss ++ "/" = ofSegments true ss ++ "/" ++ "" := by simp
    have hempty : segments "" = [""] := rfl
    have hself := ne_empty_of_isAbsolute habs
    rw [ofSegments_concat hne, dir_append _ hn, hslash, clean, isAbsolute_append hself, habs,
      cleanSegments_append hself, hempty, cleanSegments_ofSegments hs]
    simp

theorem dir_ne_of_concat (hs : ∀ s ∈ ss ++ [name], IsName s) :
    dir (ofSegments true (ss ++ [name])) ≠ ofSegments true (ss ++ [name]) := by
  have hparts := List.forall_mem_append.mp hs
  intro h
  rw [dir_ofSegments_concat hparts.1 (by simpa using hparts.2)] at h
  have hsegments := congrArg cleanSegments h
  rw [cleanSegments_ofSegments hparts.1, cleanSegments_ofSegments hs] at hsegments
  simp at hsegments

/-! ## The way up -/

theorem Ascends.unique (h : Ascends path ds) (h' : Ascends path ds') : ds = ds' := by
  induction h generalizing ds' with
  | root hroot =>
    cases h' with
    | root => rfl
    | up hne => exact absurd hroot hne
  | up hne _ ih =>
    cases h' with
    | root hroot => exact absurd hroot hne
    | up _ hup => rw [ih hup]

/-- There is one way up from a path, through the paths with fewer and fewer of its segments. -/
theorem ascends_iff (hs : ∀ s ∈ rs, IsName s) : Ascends (ofSegments true rs.reverse) ds ↔
    ds = rs.tails.map fun ss => ofSegments true ss.reverse := by
  have hascends : Ascends (ofSegments true rs.reverse)
      (rs.tails.map fun ss => ofSegments true ss.reverse) := by
    induction rs with
    | nil => exact .root dir_root
    | cons s rs ih =>
      have hrs : ∀ r ∈ rs.reverse ++ [s], IsName r := by simpa [or_comm] using hs
      rw [List.forall_mem_cons] at hs
      have hdir := dir_ofSegments_concat (List.forall_mem_append.mp hrs).1 hs.1
      rw [List.tails_cons, List.map_cons, List.reverse_cons]
      refine .up (dir_ne_of_concat hrs) ?_
      rw [hdir]
      exact ih hs.2
  constructor
  · intro h
    exact h.unique hascends
  · rintro rfl
    exact hascends

end Scriptlet.Path
