import Scriptlet.Proofs.Files.Ascending

/-!
# Where paths lead

A path leads to an entry if all that is passed on the way is a directory. For a clean path from the
root these are the places above the entry, so the path leads to what is at the place of its segments,
unless something above is missing or is a file, or the path is longer than paths may be.

Wherever a path leads, it leads to the place of its segments. It still does when a tree has more
entries than before.

## Main definitions

* `FileTree.next?`: the place that one segment leads to
* `FileTree.HasFile`: a file that the path of its place leads to
* `FileTree.Keeps`: a tree that has all that another one has

## Main statements

* `FileTree.walk_cons_eq_entry_iff`: following one segment more
* `FileTree.exists_walk_of_append`, `FileTree.walk_append`: a path is followed part by part
* `FileTree.isDirectory?_eq_false_iff`: the files that clean paths lead to
* `FileTree.place_of_find_entry`, `FileTree.place_of_find_vacant`: the place that a path leads to
* `FileTree.Keeps.find`: what a path leads to is still there in a tree with more entries
-/

namespace Scriptlet.FileTree

variable {t t' t'' : FileTree} {start place inner : List String} {segment path cwd : String}
  {rest ss ts : List String} {e e' : Entry} {bytes : ByteArray}

/-- The place that a segment leads to from a directory, unless it is too long to be a name. -/
def next? (place : List String) (segment : String) : Option (List String) :=
  if segment = "" ∨ segment = "." then some place
  else if segment = ".." then some place.dropLast
  else if segment.utf8ByteSize > 255 then none
  else some (place ++ [segment])

theorem next?_name (h : Path.IsName segment) :
    next? place segment = some inner ↔ segment.utf8ByteSize ≤ 255 ∧ inner = place ++ [segment] := by
  simp [next?, h.ne_empty, h.ne_dot, h.ne_up, eq_comm]

theorem walk_of_none (h : t.entryAt? start = none) (ss : List String) :
    t.walk start ss = .blocked .notExist := by
  cases ss <;> simp [walk, h]

theorem walk_nil_eq_entry_iff :
    t.walk start [] = .entry place e ↔ t.entryAt? start = some e ∧ place = start := by
  rw [walk]
  cases h : t.entryAt? start <;> simp [eq_comm, and_comm]

/-- Following one segment more. -/
theorem walk_cons_eq_entry_iff : t.walk start (segment :: rest) = .entry place e ↔
    t.entryAt? start = some .directory ∧
      ∃ inner, next? start segment = some inner ∧ t.walk inner rest = .entry place e := by
  rw [walk]
  rcases h : t.entryAt? start with _ | _ | _
  · simp
  · simp
  by_cases hskip : segment = "" ∨ segment = "."
  · simp [next?, hskip]
  by_cases hup : segment = ".."
  · simp [next?, hup]
  by_cases hlong : segment.utf8ByteSize > 255
  · simp [next?, hskip, hup, hlong]
  by_cases hinner : (t.entryAt? (start ++ [segment])).isSome
  · simp [next?, hskip, hup, hlong, hinner]
  · have hnone : t.entryAt? (start ++ [segment]) = none := by simpa using hinner
    have hrest := walk_of_none hnone rest
    cases rest <;> simp [next?, hskip, hup, hlong, hnone, hrest]

/-- A path that leads to an entry is followed part by part. -/
theorem exists_walk_of_append (h : t.walk start (ss ++ ts) = .entry place e) :
    ∃ inner e', t.walk start ss = .entry inner e' ∧ t.walk inner ts = .entry place e := by
  induction ss generalizing start with
  | nil =>
    cases ts with
    | nil =>
      obtain ⟨hstart, rfl⟩ := walk_nil_eq_entry_iff.mp h
      exact ⟨_, e, walk_nil_eq_entry_iff.mpr ⟨hstart, rfl⟩, h⟩
    | cons s ts =>
      have hstart := (walk_cons_eq_entry_iff.mp h).1
      exact ⟨start, _, walk_nil_eq_entry_iff.mpr ⟨hstart, rfl⟩, h⟩
  | cons s ss ih =>
    obtain ⟨hstart, next, hnext, h⟩ := walk_cons_eq_entry_iff.mp h
    obtain ⟨inner, e', hinner, h⟩ := ih h
    exact ⟨inner, e', walk_cons_eq_entry_iff.mpr ⟨hstart, next, hnext, hinner⟩, h⟩

theorem walk_append (h : t.walk start ss = .entry inner e') (h' : t.walk inner ts = .entry place e) :
    t.walk start (ss ++ ts) = .entry place e := by
  induction ss generalizing start with
  | nil =>
    obtain ⟨-, rfl⟩ := walk_nil_eq_entry_iff.mp h
    exact h'
  | cons segment rest ih =>
    obtain ⟨hstart, next, hnext, h⟩ := walk_cons_eq_entry_iff.mp h
    exact walk_cons_eq_entry_iff.mpr ⟨hstart, next, hnext, ih h⟩

/-- A place where nothing is has a name in a directory, and this is the last segment. -/
theorem exists_of_walk_vacant (h : t.walk start ss = .vacant place) :
    ∃ front name inner, ss = front ++ [name] ∧ t.walk start front = .entry inner .directory ∧
      next? inner name = some place ∧ place = inner ++ [name] ∧ t.entryAt? place = none := by
  induction ss generalizing start with
  | nil =>
    rw [walk] at h
    cases he : t.entryAt? start <;> simp [he] at h
  | cons segment rest ih =>
    rw [walk] at h
    rcases hstart : t.entryAt? start with _ | _ | _
    · simp [hstart] at h
    · simp [hstart] at h
    simp only [hstart] at h
    have step {inner : List String} (hnext : next? start segment = some inner)
        (h : t.walk inner rest = .vacant place) :
        ∃ front name parent, segment :: rest = front ++ [name] ∧
          t.walk start front = .entry parent .directory ∧ next? parent name = some place ∧
          place = parent ++ [name] ∧ t.entryAt? place = none := by
      obtain ⟨front, name, parent, rfl, hfront, hrest⟩ := ih h
      exact ⟨segment :: front, name, parent, rfl,
        walk_cons_eq_entry_iff.mpr ⟨hstart, inner, hnext, hfront⟩, hrest⟩
    split_ifs at h with hskip hup hlong hinner hrest
    · exact step (by simp [next?, hskip]) h
    · exact step (by simp [next?, hup]) h
    · exact step (by simp [next?, hskip, hup, hlong]) h
    · obtain rfl := List.isEmpty_iff.mp hrest
      obtain rfl : start ++ [segment] = place := by simpa using h
      exact ⟨[], segment, start, rfl, walk_nil_eq_entry_iff.mpr ⟨hstart, rfl⟩,
        by simp [next?, hskip, hup, hlong], rfl, by simpa using hinner⟩

/-- Names lead downwards, through directories. -/
theorem walk_names_eq_entry_iff (hs : ∀ s ∈ ss, Path.IsName s) :
    t.walk start ss = .entry place e ↔ t.entryAt? (start ++ ss) = some e ∧ place = start ++ ss ∧
      (∀ q, q <+: ss → q ≠ ss → t.entryAt? (start ++ q) = some .directory) ∧
      ∀ s ∈ ss, s.utf8ByteSize ≤ 255 := by
  induction ss generalizing start with
  | nil => simp [walk_nil_eq_entry_iff]
  | cons s ss ih =>
    rw [List.forall_mem_cons] at hs
    rw [walk_cons_eq_entry_iff, List.forall_mem_cons]
    simp only [next?_name hs.1, and_assoc, exists_eq_left, exists_and_left, ih hs.2,
      List.append_assoc, List.singleton_append]
    constructor
    · rintro ⟨hstart, hshort, he, rfl, hall, hrest⟩
      refine ⟨he, rfl, fun q hq hne => ?_, hshort, hrest⟩
      cases q with
      | nil => simpa using hstart
      | cons r q =>
        obtain ⟨rfl, hq'⟩ := List.cons_prefix_cons.mp hq
        exact hall q hq' (by simpa using hne)
    · rintro ⟨he, rfl, hall, hshort, hrest⟩
      refine ⟨by simpa using hall [] List.nil_prefix (by simp), hshort, he, rfl, ?_, hrest⟩
      intro q hq hne
      exact hall (s :: q) (List.cons_prefix_cons.mpr ⟨rfl, hq⟩) (by simpa using hne)

/--
There is a file at the place, and its path leads there: all that is above it is a directory, and
neither the path nor one of its names is longer than paths and names may be.
-/
structure HasFile (t : FileTree) (place : List String) : Prop where
  file : ∃ bytes, t.entryAt? place = some (.file bytes)
  above : ∀ q, q <+: place → q ≠ place → t.entryAt? q = some .directory
  names : ∀ s ∈ place, s.utf8ByteSize ≤ 255
  path : (Path.ofSegments true place).utf8ByteSize < 4096
  noNul : '\x00' ∉ (Path.ofSegments true place).toList

/-- The path can be followed, wherever it leads. -/
structure IsFollowed (path : String) : Prop where
  ne_empty : path ≠ ""
  noNul : '\x00' ∉ path.toList
  short : path.utf8ByteSize < 4096

/-- The place that a path is followed from. -/
def startOf (cwd path : String) : List String :=
  if Path.isAbsolute path then [] else Path.cleanSegments cwd

theorem find_cases (t : FileTree) (cwd path : String) :
    IsFollowed path ∧ t.find cwd path = t.walk (startOf cwd path) (Path.segments path) ∨
      ¬ IsFollowed path ∧ ∃ cause, t.find cwd path = .blocked cause := by
  by_cases hempty : path = ""
  · exact .inr ⟨fun h => h.ne_empty hempty, .notExist, by simp [find, hempty]⟩
  by_cases hnul : '\x00' ∈ path.toList
  · exact .inr ⟨fun h => h.noNul hnul, .invalid, by simp [find, hempty, hnul]⟩
  by_cases hlong : path.utf8ByteSize ≥ 4096
  · exact .inr ⟨fun h => absurd h.short (not_lt.mpr hlong), .nameTooLong,
      by simp [find, hempty, hnul, hlong]⟩
  · exact .inl ⟨⟨hempty, hnul, not_le.mp hlong⟩, by simp [find, startOf, hempty, hnul, hlong]⟩

/-- A path leads to an entry if it can be followed at all, and its segments lead there. -/
theorem find_eq_entry_iff : t.find cwd path = .entry place e ↔
    IsFollowed path ∧ t.walk (startOf cwd path) (Path.segments path) = .entry place e := by
  rcases find_cases t cwd path with ⟨hpath, hfind⟩ | ⟨hpath, cause, hfind⟩
  · simp [hfind, hpath]
  · simp [hfind, hpath]

theorem find_eq_vacant_iff : t.find cwd path = .vacant place ↔
    IsFollowed path ∧ t.walk (startOf cwd path) (Path.segments path) = .vacant place := by
  rcases find_cases t cwd path with ⟨hpath, hfind⟩ | ⟨hpath, cause, hfind⟩
  · simp [hfind, hpath]
  · simp [hfind, hpath]

theorem isDirectory?_eq_some_iff {b : Bool} : t.isDirectory? cwd path = some b ↔
    ∃ place e, t.find cwd path = .entry place e ∧ (b = true ↔ e = .directory) := by
  unfold isDirectory?
  rcases t.find cwd path with ⟨place, _ | _⟩ | _ | _ <;> cases b <;> simp

/-- The path of a place is followed name by name, from the root. -/
theorem walk_segments_ofSegments (hs : ∀ s ∈ ss, '/' ∉ s.toList) :
    t.walk [] (Path.segments (Path.ofSegments true ss)) = t.walk [] ss := by
  have hroot : Path.ofSegments true ss = "" ++ "/" ++ "/".intercalate ss := by
    simp [Path.ofSegments]
  have hskip (rest : List String) : t.walk [] ("" :: rest) = t.walk [] rest := by simp [walk]
  have hempty : Path.segments "" = [""] := rfl
  rw [hroot, Path.segments_append, hempty]
  rcases eq_or_ne ss [] with rfl | hne
  · exact (hskip _).trans (hskip _)
  · rw [Path.segments_intercalate hne hs]
    exact hskip ss

/-- The files that clean paths from the root lead to. -/
theorem isDirectory?_eq_false_iff (hs : ∀ s ∈ ss, Path.IsName s) :
    t.isDirectory? cwd (Path.ofSegments true ss) = some false ↔ t.HasFile ss := by
  have habs : Path.isAbsolute (Path.ofSegments true ss) :=
    Path.isAbsolute_ofSegments fun s hs' => ⟨(hs s hs').ne_empty, (hs s hs').no_slash⟩
  have hwalk := walk_segments_ofSegments (t := t) fun s hs' => (hs s hs').no_slash
  simp only [isDirectory?_eq_some_iff, find_eq_entry_iff, startOf, if_pos habs, hwalk,
    walk_names_eq_entry_iff hs]
  constructor
  · rintro ⟨place, e, ⟨hpath, he, -, habove, hnames⟩, hfile⟩
    cases e with
    | file bytes =>
      exact ⟨⟨bytes, by simpa using he⟩, by simpa using habove, hnames, hpath.short, hpath.noNul⟩
    | directory => simp at hfile
  · rintro ⟨⟨bytes, hbytes⟩, habove, hnames, hpath, hnul⟩
    exact ⟨ss, .file bytes, ⟨⟨Path.ne_empty_of_isAbsolute habs, hnul, hpath⟩, by simpa using hbytes,
      by simp, by simpa using habove, hnames⟩, by simp⟩

/-! ## Places -/

/-- A segment leads where it leads in the segments of a clean path. -/
theorem reverse_of_next? (h : next? place segment = some inner) (hplace : ".." ∉ place) :
    inner.reverse = Path.enter true place.reverse segment ∧ ".." ∉ inner := by
  unfold next? at h
  split_ifs at h with hskip hup hlong
  · cases h
    simp [Path.enter, hskip, hplace]
  · cases h
    refine ⟨?_, fun hmem => hplace (List.mem_of_mem_dropLast hmem)⟩
    rcases List.eq_nil_or_concat place with rfl | ⟨above, s, rfl⟩
    · simp [Path.enter, hup]
    · have hs : s ≠ ".." := by
        rintro rfl
        simp at hplace
      simp [Path.enter, hup, hs]
  · cases h
    simp [Path.enter, hskip, hup, hplace, Ne.symm hup]

theorem reverse_of_walk_entry (h : t.walk start ss = .entry place e) (hstart : ".." ∉ start) :
    place.reverse = ss.foldl (Path.enter true) start.reverse ∧ ".." ∉ place := by
  induction ss generalizing start with
  | nil =>
    obtain ⟨-, rfl⟩ := walk_nil_eq_entry_iff.mp h
    exact ⟨rfl, hstart⟩
  | cons segment rest ih =>
    obtain ⟨-, inner, hnext, h⟩ := walk_cons_eq_entry_iff.mp h
    obtain ⟨henter, hinner⟩ := reverse_of_next? hnext hstart
    rw [List.foldl_cons, ← henter]
    exact ih h hinner

theorem reverse_of_walk_vacant (h : t.walk start ss = .vacant place) (hstart : ".." ∉ start) :
    place.reverse = ss.foldl (Path.enter true) start.reverse := by
  obtain ⟨front, name, inner, rfl, hfront, hnext, -, -⟩ := exists_of_walk_vacant h
  obtain ⟨hinner, hdots⟩ := reverse_of_walk_entry hfront hstart
  rw [List.foldl_append, ← hinner]
  exact (reverse_of_next? hnext hdots).1

theorem not_mem_startOf (hc : Path.isAbsolute cwd) : ".." ∉ startOf cwd path := by
  unfold startOf
  split_ifs
  · simp
  · exact fun h => (Path.isName_of_mem_cleanSegments hc h).ne_up rfl

/-- A path leads to the place of its segments, seen from the directory that it is followed from. -/
theorem place_of_walk (hc : Path.isAbsolute cwd) (h : place.reverse =
    (Path.segments path).foldl (Path.enter true) (startOf cwd path).reverse) :
    place = Path.cleanSegments (Path.absolute cwd path) := by
  have hstart : (startOf cwd path).reverse =
      if Path.isAbsolute path then [] else (Path.cleanSegments cwd).reverse := by
    unfold startOf
    split_ifs <;> rfl
  rw [Path.cleanSegments_absolute hc, ← hstart, ← h, List.reverse_reverse]

theorem place_of_find_entry (hc : Path.isAbsolute cwd) (h : t.find cwd path = .entry place e) :
    place = Path.cleanSegments (Path.absolute cwd path) := by
  obtain ⟨-, h⟩ := find_eq_entry_iff.mp h
  exact place_of_walk hc (reverse_of_walk_entry h (not_mem_startOf hc)).1

theorem place_of_find_vacant (hc : Path.isAbsolute cwd) (h : t.find cwd path = .vacant place) :
    place = Path.cleanSegments (Path.absolute cwd path) := by
  obtain ⟨-, h⟩ := find_eq_vacant_iff.mp h
  exact place_of_walk hc (reverse_of_walk_vacant h (not_mem_startOf hc))

/-! ## Trees that keep what is there -/

/-- All that is in the first tree is in the second one as well. -/
def Keeps (t t' : FileTree) : Prop := ∀ q, (t.entryAt? q).isSome → t'.entryAt? q = t.entryAt? q

theorem Keeps.refl (t : FileTree) : t.Keeps t := fun _ _ => rfl

theorem Keeps.entryAt? (h : t.Keeps t') (he : t.entryAt? place = some e) :
    t'.entryAt? place = some e := by
  rw [h place (by simp [he]), he]

theorem Keeps.trans (h : t.Keeps t') (h' : t'.Keeps t'') : t.Keeps t'' := by
  intro q hq
  obtain ⟨e, he⟩ := Option.isSome_iff_exists.mp hq
  rw [he, h'.entryAt? (h.entryAt? he)]

theorem Keeps.walk (h : t.Keeps t') (hw : t.walk start ss = .entry place e) :
    t'.walk start ss = .entry place e := by
  induction ss generalizing start with
  | nil =>
    obtain ⟨he, rfl⟩ := walk_nil_eq_entry_iff.mp hw
    exact walk_nil_eq_entry_iff.mpr ⟨h.entryAt? he, rfl⟩
  | cons segment rest ih =>
    obtain ⟨hstart, inner, hnext, hw⟩ := walk_cons_eq_entry_iff.mp hw
    exact walk_cons_eq_entry_iff.mpr ⟨h.entryAt? hstart, inner, hnext, ih hw⟩

/-- A path that leads to an entry still does when more is there. -/
theorem Keeps.find (h : t.Keeps t') (hf : t.find cwd path = .entry place e) :
    t'.find cwd path = .entry place e := by
  obtain ⟨hpath, hw⟩ := find_eq_entry_iff.mp hf
  exact find_eq_entry_iff.mpr ⟨hpath, h.walk hw⟩

theorem entryAt?_of_find (h : t.find cwd path = .entry place e) : t.entryAt? place = some e :=
  entryAt?_of_walk_entry (find_eq_entry_iff.mp h).2

theorem entryAt?_of_find_vacant (h : t.find cwd path = .vacant place) : t.entryAt? place = none :=
  entryAt?_of_walk_vacant (find_eq_vacant_iff.mp h).2

theorem read_eq_ok_iff :
    t.read cwd path = .ok bytes ↔ ∃ place, t.find cwd path = .entry place (.file bytes) := by
  unfold read
  rcases t.find cwd path with ⟨place, _ | _⟩ | _ | _ <;> simp [eq_comm]

theorem Keeps.read (h : t.Keeps t') (hr : t.read cwd path = .ok bytes) :
    t'.read cwd path = .ok bytes := by
  obtain ⟨place, hf⟩ := read_eq_ok_iff.mp hr
  exact read_eq_ok_iff.mpr ⟨place, h.find hf⟩

theorem isSome_isDirectory?_iff :
    (t.isDirectory? cwd path).isSome ↔ ∃ place e, t.find cwd path = .entry place e := by
  unfold isDirectory?
  rcases t.find cwd path with ⟨place, _ | _⟩ | _ | _ <;> simp

theorem Keeps.isDirectory? (h : t.Keeps t') (hd : (t.isDirectory? cwd path).isSome) :
    (t'.isDirectory? cwd path).isSome := by
  obtain ⟨place, e, hf⟩ := isSome_isDirectory?_iff.mp hd
  exact isSome_isDirectory?_iff.mpr ⟨place, e, h.find hf⟩

end Scriptlet.FileTree
