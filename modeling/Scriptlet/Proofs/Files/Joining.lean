import Mathlib
import Scriptlet.Files.Path

/-!
# Joining paths

A path is cleaned by taking its segments one after the other, so it does not matter if a part of it
was cleaned before. Joined with a name, a path leads to one more segment; joined with `.` it stays, and
joined with `..` it loses its last segment.

## Main definitions

* `Path.IsName`: a segment that names an entry of a directory
* `Path.IsChild`: a path that leads to an entry of a directory
* `Path.Clean`: the segments of a clean path, innermost first

## Main statements

* `Path.cleanSegments_clean`: cleaning twice is cleaning once
* `Path.join_name`, `Path.join_dot`, `Path.join_up`: what a segment adds to a path
* `Path.cleanSegments_absolute_join`: the place of a name in a directory
-/

namespace Scriptlet.Path

/-- A segment that names an entry of a directory, and leads neither up nor nowhere. -/
structure IsName (name : String) : Prop where
  ne_empty : name ≠ ""
  ne_dot : name ≠ "."
  ne_up : name ≠ ".."
  no_slash : '/' ∉ name.toList

/-- The path of an entry of the directory at `parent`. -/
def IsChild (parent path : String) : Prop := ∃ name, IsName name ∧ path = parent ++ "/" ++ name

/-- The segments of a clean path, innermost first: `..` stands only at the start of a relative path. -/
inductive Clean (rooted : Bool) : List String → Prop where
  | nil : Clean rooted []
  | up {above : List String} (hr : rooted = false) (h : Clean rooted above)
      (hall : ∀ s ∈ above, s = "..") : Clean rooted (".." :: above)
  | name {s : String} {above : List String} (hs : IsName s) (h : Clean rooted above) :
      Clean rooted (s :: above)

variable {rooted : Bool} {a b path cwd name s : String} {above ss : List String}

/-! ## Splitting and putting together -/

theorem splitSegments_eq (cs : List Char) : splitSegments cs = cs.splitOn '/' := by
  induction cs with
  | nil => rfl
  | cons c cs ih =>
    have hcons : (c :: cs).splitOn '/' =
        if c == '/' then [] :: cs.splitOn '/' else (cs.splitOn '/').modifyHead (c :: ·) :=
      List.splitOnP_cons_eq_if_modifyHead ..
    rw [splitSegments, ih, hcons]
    by_cases hc : c = '/'
    · simp [hc]
    · cases hs : cs.splitOn '/' with
      | nil => exact absurd hs (List.splitOnP_ne_nil _ _)
      | cons s ss => simp [hc]

theorem segments_append (a b : String) : segments (a ++ "/" ++ b) = segments a ++ segments b := by
  have hs : (a ++ "/" ++ b).toList = a.toList ++ '/' :: b.toList := by simp
  rw [segments, hs, splitSegments_eq, List.splitOn, List.splitOnP_append_cons _ _ (by simp),
    List.map_append, segments, segments, splitSegments_eq, splitSegments_eq]
  rfl

theorem segments_of_not_mem (h : '/' ∉ s.toList) : segments s = [s] := by
  have hs : s.toList.splitOn '/' = [s.toList] := by
    refine List.splitOnP_eq_singleton fun c hc => ?_
    simpa using ne_of_mem_of_not_mem hc h
  rw [segments, splitSegments_eq, hs, List.map_singleton, String.ofList_toList]

theorem segments_intercalate (hne : ss ≠ []) (h : ∀ s ∈ ss, '/' ∉ s.toList) :
    segments ("/".intercalate ss) = ss := by
  have hs : ("/".intercalate ss).toList.splitOn '/' = ss.map String.toList := by
    rw [String.toList_intercalate]
    exact List.splitOn_intercalate '/' (by simpa using h) (by simpa using hne)
  rw [segments, splitSegments_eq, hs]
  simp

theorem not_mem_splitSegments {cs ds : List Char} (h : ds ∈ splitSegments cs) : '/' ∉ ds := by
  induction cs generalizing ds with
  | nil => simp_all [splitSegments]
  | cons c cs ih =>
    rw [splitSegments] at h
    by_cases hc : c = '/'
    · simp only [hc, if_true, List.mem_cons] at h
      rcases h with rfl | h
      · exact List.not_mem_nil
      · exact ih h
    · simp only [hc, if_false] at h
      cases hs : splitSegments cs with
      | nil => simp_all [Ne.symm hc]
      | cons s ss =>
        rw [hs] at h ih
        rcases List.mem_cons.mp h with rfl | h
        · simpa [Ne.symm hc] using ih List.mem_cons_self
        · exact ih (List.mem_cons_of_mem _ h)

theorem not_mem_of_mem_segments (h : s ∈ segments path) : '/' ∉ s.toList := by
  obtain ⟨cs, hcs, rfl⟩ := List.mem_map.mp h
  simpa using not_mem_splitSegments hcs

theorem isAbsolute_append (ha : a ≠ "") (b : String) : isAbsolute (a ++ "/" ++ b) = isAbsolute a := by
  have hne : a.toList ≠ [] := by simpa using ha
  simp only [isAbsolute, String.toList_append, List.append_assoc]
  rw [List.head?_append_of_ne_nil _ hne]

/-! ## Clean paths -/

theorem enter_name (h : IsName s) : enter rooted above s = s :: above := by
  simp [enter, h.ne_empty, h.ne_dot, h.ne_up]

theorem enter_up (h : IsName s) : enter rooted (s :: above) ".." = above := by
  simp [enter, h.ne_up]

@[simp] theorem enter_empty : enter rooted above "" = above := by simp [enter]

@[simp] theorem enter_dot : enter rooted above "." = above := by simp [enter]

theorem Clean.no_slash (h : Clean rooted ss) : ∀ s ∈ ss, s ≠ "" ∧ '/' ∉ s.toList := by
  induction h with
  | nil => simp
  | up _ _ _ ih =>
    rw [List.forall_mem_cons]
    exact ⟨by decide, ih⟩
  | name hs _ ih =>
    rw [List.forall_mem_cons]
    exact ⟨⟨hs.ne_empty, hs.no_slash⟩, ih⟩

theorem Clean.enter (h : Clean rooted above) (hs : '/' ∉ s.toList) :
    Clean rooted (enter rooted above s) := by
  by_cases hskip : s = "" ∨ s = "."
  · rcases hskip with rfl | rfl
    · rwa [enter_empty]
    · rwa [enter_dot]
  by_cases hup : s = ".."
  · subst hup
    cases h with
    | nil =>
      cases rooted with
      | false => exact .up rfl .nil (by simp)
      | true => exact .nil
    | up hr h hall => simpa [Path.enter] using Clean.up hr (.up hr h hall) (by simpa using hall)
    | name hn h => rwa [enter_up hn]
  · have hn : IsName s := ⟨fun he => hskip (.inl he), fun he => hskip (.inr he), hup, hs⟩
    rw [enter_name hn]
    exact .name hn h

theorem clean_foldl (h : Clean rooted above) (hs : ∀ s ∈ ss, '/' ∉ s.toList) :
    Clean rooted (ss.foldl (enter rooted) above) := by
  induction ss generalizing above with
  | nil => exact h
  | cons s ss ih =>
    rw [List.forall_mem_cons] at hs
    exact ih (h.enter hs.1) hs.2

theorem clean_cleanSegments (path : String) : Clean (isAbsolute path) (cleanSegments path).reverse := by
  rw [cleanSegments, List.reverse_reverse]
  exact clean_foldl .nil fun s => not_mem_of_mem_segments

theorem no_slash_of_mem_cleanSegments (h : s ∈ cleanSegments path) : s ≠ "" ∧ '/' ∉ s.toList :=
  (clean_cleanSegments path).no_slash s (by simpa using h)

/-- Below a name, a clean path has names only. -/
theorem Clean.isName_of_append {inner : List String} (h : Clean rooted (inner ++ name :: above))
    (hname : name ≠ "..") : ∀ s ∈ inner, IsName s := by
  induction inner with
  | nil => simp
  | cons s inner ih =>
    rw [List.cons_append] at h
    cases h with
    | up _ _ hall => exact absurd (hall name (by simp)) hname
    | name hs h => exact List.forall_mem_cons.mpr ⟨hs, ih h⟩

theorem foldl_enter_names (hs : ∀ s ∈ ss, IsName s) (above : List String) :
    ss.foldl (enter rooted) above = ss.reverse ++ above := by
  induction ss generalizing above with
  | nil => rfl
  | cons s ss ih =>
    rw [List.forall_mem_cons] at hs
    rw [List.foldl_cons, enter_name hs.1, ih hs.2, List.reverse_cons, List.append_assoc]
    rfl

/-- Taken one after the other, the segments of a clean path stay as they are. -/
theorem Clean.foldl_reverse (h : Clean rooted above) :
    above.reverse.foldl (Path.enter rooted) [] = above := by
  induction h with
  | nil => rfl
  | @up above hr _ hall ih =>
    rw [List.reverse_cons, List.foldl_append, ih]
    subst hr
    cases above with
    | nil => rfl
    | cons s above => simp [Path.enter, hall s List.mem_cons_self]
  | name hs _ ih =>
    rw [List.reverse_cons, List.foldl_append, ih]
    exact enter_name hs

/-- The path of some segments leads where the segments lead, from wherever they are followed. -/
theorem foldl_segments_ofSegments (rooted' : Bool) (h : ∀ s ∈ ss, '/' ∉ s.toList) :
    (segments (ofSegments rooted ss)).foldl (enter rooted') above = ss.foldl (enter rooted') above := by
  have hnil : segments "" = [""] := rfl
  rcases eq_or_ne ss [] with rfl | hne
  · cases rooted with
    | false => rw [show segments (ofSegments false []) = ["."] from rfl]; simp
    | true => rw [show segments (ofSegments true []) = ["", ""] from rfl]; simp
  · cases rooted with
    | false => rw [ofSegments, if_neg (by simp), if_neg (by simpa using hne), segments_intercalate hne h]
    | true =>
      have hroot : ofSegments true ss = "" ++ "/" ++ "/".intercalate ss := by simp [ofSegments]
      rw [hroot, segments_append, segments_intercalate hne h, hnil]
      simp

theorem isAbsolute_ofSegments (h : ∀ s ∈ ss, s ≠ "" ∧ '/' ∉ s.toList) :
    isAbsolute (ofSegments rooted ss) = rooted := by
  cases rooted with
  | true => simp [ofSegments, isAbsolute]
  | false =>
    cases ss with
    | nil => rfl
    | cons s ss =>
      obtain ⟨hne, hslash⟩ := h s List.mem_cons_self
      obtain ⟨c, cs, hc⟩ := List.exists_cons_of_ne_nil (l := s.toList) (by simpa using hne)
      have hhead : ("/".intercalate (s :: ss)).toList.head? = some c := by
        cases ss with
        | nil => simp [hc]
        | cons t ss => simp [String.intercalate_cons_cons, hc]
      have hcs : c ≠ '/' := fun he => hslash (by simp [hc, he])
      rw [isAbsolute, ofSegments, if_neg (by simp), if_neg (by simp), hhead]
      simpa using hcs

theorem isAbsolute_clean_eq (path : String) : isAbsolute (clean path) = isAbsolute path :=
  isAbsolute_ofSegments fun _ => no_slash_of_mem_cleanSegments

theorem foldl_segments_clean (path : String) (rooted : Bool) (above : List String) :
    (segments (clean path)).foldl (enter rooted) above =
      (cleanSegments path).foldl (enter rooted) above :=
  foldl_segments_ofSegments rooted fun _ hs => (no_slash_of_mem_cleanSegments hs).2

/-- Cleaning twice is cleaning once. -/
theorem cleanSegments_clean (path : String) : cleanSegments (clean path) = cleanSegments path := by
  have h := (clean_cleanSegments path).foldl_reverse
  rw [List.reverse_reverse] at h
  rw [cleanSegments, isAbsolute_clean_eq, foldl_segments_clean, h, List.reverse_reverse]

theorem clean_clean (path : String) : clean (clean path) = clean path := by
  rw [clean, isAbsolute_clean_eq, cleanSegments_clean, clean]

/-! ## Joining -/

/-- The segments of a path and of what comes after it. -/
theorem cleanSegments_append (ha : a ≠ "") (b : String) : cleanSegments (a ++ "/" ++ b) =
    ((segments b).foldl (enter (isAbsolute a)) (cleanSegments a).reverse).reverse := by
  rw [cleanSegments, isAbsolute_append ha, segments_append, List.foldl_append, cleanSegments,
    List.reverse_reverse]

/-- A name comes after the segments of the path that it is joined with. -/
theorem exists_join_eq (a : String) (h : IsName name) : ∃ path, join a name = clean path ∧
    isAbsolute path = isAbsolute a ∧ ∀ rooted above,
      (segments path).foldl (enter rooted) above = name :: (segments a).foldl (enter rooted) above := by
  by_cases ha : a = ""
  · subst ha
    have hname : isAbsolute name = false := by
      simpa [isAbsolute] using fun he => h.no_slash (List.mem_of_head? he)
    refine ⟨name, by simp [join, h.ne_empty], hname, fun rooted above => ?_⟩
    rw [segments_of_not_mem h.no_slash, show segments "" = [""] from rfl]
    simp [enter_name h]
  · refine ⟨a ++ "/" ++ name, by simp [join, ha, h.ne_empty], isAbsolute_append ha _,
      fun rooted above => ?_⟩
    rw [segments_append, segments_of_not_mem h.no_slash, List.foldl_append]
    exact enter_name h

theorem isAbsolute_join_name (a : String) (h : IsName name) :
    isAbsolute (join a name) = isAbsolute a := by
  obtain ⟨path, hjoin, habs, -⟩ := exists_join_eq a h
  rw [hjoin, isAbsolute_clean_eq, habs]

theorem cleanSegments_join_name (a : String) (h : IsName name) :
    cleanSegments (join a name) = cleanSegments a ++ [name] := by
  obtain ⟨path, hjoin, habs, hfold⟩ := exists_join_eq a h
  rw [hjoin, cleanSegments_clean, cleanSegments, habs, hfold, List.reverse_cons, cleanSegments]

theorem clean_join_name (a : String) (h : IsName name) : clean (join a name) = join a name := by
  obtain ⟨path, hjoin, -⟩ := exists_join_eq a h
  rw [hjoin, clean_clean]

/-- Joined with a name, a path has one more segment. -/
theorem join_name (a : String) (h : IsName name) :
    join a name = ofSegments (isAbsolute a) (cleanSegments a ++ [name]) := by
  rw [← clean_join_name a h, clean, isAbsolute_join_name a h, cleanSegments_join_name a h]

theorem join_ne_empty (a : String) (h : IsName name) : join a name ≠ "" := by
  intro he
  have hs := cleanSegments_join_name a h
  rw [he, show cleanSegments "" = [] from rfl] at hs
  simp at hs

theorem join_dot (ha : a ≠ "") : join a "." = clean a := by
  rw [join, if_neg (by simp), if_neg ha, if_neg (by simp), clean, isAbsolute_append ha,
    cleanSegments_append ha, segments_of_not_mem (by decide)]
  simp [clean]

/-- Joined with `..`, a path loses the name at its end. -/
theorem join_up (a : String) (h : IsName name) : join (join a name) ".." = clean a := by
  have hne := join_ne_empty a h
  rw [join, if_neg (by simp), if_neg hne, if_neg (by simp), clean, isAbsolute_append hne,
    cleanSegments_append hne, segments_of_not_mem (by decide), cleanSegments_join_name a h,
    isAbsolute_join_name a h, clean]
  simp [enter_up h]

theorem ofSegments_concat (hne : ss ≠ []) (s : String) :
    ofSegments rooted (ss ++ [s]) = ofSegments rooted ss ++ "/" ++ s := by
  have hinter : "/".intercalate (ss ++ [s]) = "/".intercalate ss ++ "/" ++ s := by
    induction ss with
    | nil => exact absurd rfl hne
    | cons t ss ih =>
      cases ss with
      | nil => simp [String.intercalate_cons_cons]
      | cons u ss =>
        simp only [List.cons_append, String.intercalate_cons_cons]
        rw [← List.cons_append, ih (by simp)]
        simp only [String.append_assoc]
  cases rooted with
  | true => simp [ofSegments, hinter, String.append_assoc]
  | false => simp [ofSegments, hinter, hne]

/-- An entry of a directory that is itself named in another one. -/
theorem join_join_name (a : String) {inner : String} (h : IsName name) (hi : IsName inner) :
    join (join a name) inner = join a name ++ "/" ++ inner := by
  rw [join_name (join a name) hi, isAbsolute_join_name a h, cleanSegments_join_name a h,
    ofSegments_concat (by simp), ← join_name a h]

theorem IsChild.exists_cleanSegments (h : IsChild a path) (ha : a ≠ "") :
    ∃ name, cleanSegments path = cleanSegments a ++ [name] := by
  obtain ⟨name, hn, rfl⟩ := h
  refine ⟨name, ?_⟩
  rw [cleanSegments_append ha, segments_of_not_mem hn.no_slash]
  simp [enter_name hn]

/-! ## Places -/

/-- Where a path leads from a directory. -/
theorem cleanSegments_absolute (hc : isAbsolute cwd) (path : String) :
    cleanSegments (absolute cwd path) = ((segments path).foldl (enter true)
      (if isAbsolute path then [] else (cleanSegments cwd).reverse)).reverse := by
  have hne : cwd ≠ "" := by
    rintro rfl
    cases hc
  unfold absolute
  split
  · next hp => rw [cleanSegments_clean, cleanSegments, hp]
  · next hp =>
    rw [join, if_neg (by simp [hne]), if_neg hne]
    split
    · next he =>
      subst he
      rw [cleanSegments_clean, show segments "" = [""] from rfl]
      simp
    · rw [cleanSegments_clean, cleanSegments_append hne, hc]

/-- Following a cleaned relative path is following the path itself. -/
theorem foldl_cleaned (hs : ∀ s ∈ ss, '/' ∉ s.toList) (above : List String) :
    (ss.foldl (enter false) []).reverse.foldl (enter true) above = ss.foldl (enter true) above := by
  induction ss using List.reverseRecOn with
  | nil => rfl
  | append_singleton ss s ih =>
    rw [List.forall_mem_append, List.forall_mem_singleton] at hs
    have hclean := clean_foldl (.nil : Clean false []) hs.1
    rw [List.foldl_append, List.foldl_append, ← ih hs.1]
    generalize ss.foldl (enter false) [] = inner at hclean ⊢
    change (enter false inner s).reverse.foldl (enter true) above =
      enter true (inner.reverse.foldl (enter true) above) s
    by_cases hskip : s = "" ∨ s = "."
    · rcases hskip with rfl | rfl <;> simp
    by_cases hup : s = ".."
    · subst hup
      cases hclean with
      | nil => rfl
      | up => simp [enter]
      | name hn => simp [enter_up hn, enter_name hn]
    · have hn : IsName s := ⟨fun he => hskip (.inl he), fun he => hskip (.inr he), hup, hs.2⟩
      simp [enter_name hn]

theorem cleanSegments_absolute_clean (hc : isAbsolute cwd) (path : String) :
    cleanSegments (absolute cwd (clean path)) = cleanSegments (absolute cwd path) := by
  rw [cleanSegments_absolute hc, cleanSegments_absolute hc, isAbsolute_clean_eq, foldl_segments_clean]
  cases hp : isAbsolute path with
  | true =>
    have hself := (clean_cleanSegments path).foldl_reverse
    have hraw : (segments path).foldl (enter true) [] = (cleanSegments path).reverse := by
      rw [cleanSegments, hp, List.reverse_reverse]
    rw [List.reverse_reverse, hp] at hself
    rw [if_pos rfl, hself, hraw]
  | false =>
    have hraw : cleanSegments path = ((segments path).foldl (enter false) []).reverse := by
      rw [cleanSegments, hp]
    rw [hraw, foldl_cleaned fun s => not_mem_of_mem_segments]

/-- The place of an entry of a directory. -/
theorem cleanSegments_absolute_join (hc : isAbsolute cwd) (a : String) (h : IsName name) :
    cleanSegments (absolute cwd (join a name)) = cleanSegments (absolute cwd a) ++ [name] := by
  obtain ⟨path, hjoin, habs, hfold⟩ := exists_join_eq a h
  rw [hjoin, cleanSegments_absolute_clean hc, cleanSegments_absolute hc, cleanSegments_absolute hc,
    habs, hfold, List.reverse_cons]

end Scriptlet.Path
