import Scriptlet.Manifest
import Scriptlet.Proofs.Files.Ascending
import Scriptlet.Proofs.Files.Following

/-!
# The nearest manifest

A manifest is looked for in a directory, then in the directory above it, and so on up to the root. The
first one that is found is the one in the longest of these paths. Only a file counts: a directory with
the name of a manifest is passed over, and so is all that is missing on the way, so the path to start
from need not exist.

## Main statements

* `find?_map_tails_eq_some_iff`: the first match among the ends of a list is the longest one
* `Manifest.findAbove_eq`: the search is the first match on the way up
* `Manifest.find_nearest`: where a manifest is found, and when there is none
-/

namespace Scriptlet

section Longest

variable {α β : Type} {g : List α → β} {p : β → Bool} {as ss : List α} {b : β}

theorem find?_map_tails_eq_none_iff :
    (as.tails.map g).find? p = none ↔ ∀ ss, ss <:+ as → ¬ p (g ss) := by
  simp

theorem exists_of_find?_map_tails (h : (as.tails.map g).find? p = some b) :
    ∃ ss, ss <:+ as ∧ b = g ss ∧ p (g ss) ∧ ∀ ts, ts <:+ as → p (g ts) → ts <:+ ss := by
  induction as with
  | nil =>
    have hb : p (g []) ∧ g [] = b := by simpa [List.find?_singleton] using h
    exact ⟨[], List.suffix_rfl, hb.2.symm, hb.1, fun ts hts _ => hts⟩
  | cons a as ih =>
    rw [List.tails_cons, List.map_cons] at h
    by_cases ha : p (g (a :: as))
    · rw [List.find?_cons_of_pos ha] at h
      exact ⟨a :: as, List.suffix_rfl, (Option.some.inj h).symm, ha, fun ts hts _ => hts⟩
    · rw [List.find?_cons_of_neg ha] at h
      obtain ⟨ss, hss, hb, hp, hlongest⟩ := ih h
      refine ⟨ss, hss.trans (List.suffix_cons a as), hb, hp, fun ts hts hpts => ?_⟩
      rcases List.suffix_cons_iff.mp hts with rfl | hts
      · exact absurd hpts ha
      · exact hlongest ts hts hpts

/-- The first match among the ends of a list, the list itself first, is the longest one. -/
theorem find?_map_tails_eq_some_iff : (as.tails.map g).find? p = some b ↔
    ∃ ss, ss <:+ as ∧ b = g ss ∧ p (g ss) ∧ ∀ ts, ts <:+ as → p (g ts) → ts <:+ ss := by
  refine ⟨exists_of_find?_map_tails, ?_⟩
  rintro ⟨ss, hss, rfl, hp, hlongest⟩
  cases hfind : (as.tails.map g).find? p with
  | none => exact absurd hp (find?_map_tails_eq_none_iff.mp hfind ss hss)
  | some b =>
    obtain ⟨ts, hts, rfl, hpts, hlongest'⟩ := exists_of_find?_map_tails hfind
    have hsame : ts = ss :=
      (hlongest ts hts hpts).eq_of_length_le (hlongest' ss hss hp).length_le
    rw [hsame]

end Longest

namespace Manifest

variable {files : FileTree} {cwd start path : String} {ss rs : List String}

theorem isName_fileName : Path.IsName fileName := ⟨by decide, by decide, by decide, by decide⟩

theorem join_fileName (hs : ∀ s ∈ ss, Path.IsName s) :
    Path.join (Path.ofSegments true ss) fileName = Path.ofSegments true (ss ++ [fileName]) := by
  rw [Path.join_name _ isName_fileName, Path.isAbsolute_ofSegments_of_isName hs,
    Path.cleanSegments_ofSegments hs]

theorem findAbove_nil (files : FileTree) : findAbove files [] =
    if files.isDirectory? "/" (Path.join (Path.ofSegments true []) fileName) = some false then
      some (Path.join (Path.ofSegments true []) fileName)
    else none := rfl

theorem findAbove_cons (files : FileTree) (s : String) (rs : List String) :
    findAbove files (s :: rs) =
      if files.isDirectory? "/" (Path.join (Path.ofSegments true (s :: rs).reverse) fileName) =
          some false then
        some (Path.join (Path.ofSegments true (s :: rs).reverse) fileName)
      else findAbove files rs := rfl

/-- The search is the first match on the way up. -/
theorem findAbove_eq (files : FileTree) (rs : List String) : findAbove files rs =
    ((rs.tails.map fun ss => Path.ofSegments true ss.reverse).map (Path.join · fileName)).find?
      fun path => files.isDirectory? "/" path = some false := by
  induction rs with
  | nil =>
    rw [findAbove_nil]
    split <;> simp_all
  | cons s rs ih =>
    rw [findAbove_cons, ih, List.tails_cons, List.map_cons, List.map_cons]
    split
    · next h => rw [List.find?_cons_of_pos (by simpa using h)]
    · next h => rw [List.find?_cons_of_neg (by simpa using h)]

/-- The manifest of a directory, in terms of the files that there are. -/
theorem isDirectory?_join_fileName (hs : ∀ s ∈ ss, Path.IsName s) {above : List String}
    (h : above <+: ss) :
    files.isDirectory? "/" (Path.join (Path.ofSegments true above) fileName) = some false ↔
      files.HasFile (above ++ [fileName]) := by
  have habove : ∀ s ∈ above, Path.IsName s := fun s hs' => hs s (h.subset hs')
  rw [join_fileName habove, FileTree.isDirectory?_eq_false_iff]
  exact List.forall_mem_append.mpr ⟨habove, by simpa using isName_fileName⟩

/-- Where the search ends, in terms of the files that there are. -/
theorem findAbove_eq_some_iff (hs : ∀ s ∈ ss, Path.IsName s) :
    findAbove files ss.reverse = some path ↔
      ∃ above, above <+: ss ∧ path = Path.ofSegments true (above ++ [fileName]) ∧
        files.HasFile (above ++ [fileName]) ∧
        ∀ other, other <+: ss → files.HasFile (other ++ [fileName]) → other <+: above := by
  have hpath {above : List String} (h : above <+: ss) :
      Path.join (Path.ofSegments true above) fileName =
        Path.ofSegments true (above ++ [fileName]) :=
    join_fileName fun s hs' => hs s (h.subset hs')
  rw [findAbove_eq, List.map_map, find?_map_tails_eq_some_iff]
  simp only [Function.comp_apply, decide_eq_true_eq]
  constructor
  · rintro ⟨rs, hrs, rfl, hfound, hlongest⟩
    have habove : rs.reverse <+: ss := by simpa using List.reverse_prefix.mpr hrs
    refine ⟨rs.reverse, habove, hpath habove, (isDirectory?_join_fileName hs habove).mp hfound,
      fun other hother h => ?_⟩
    have hsuffix := hlongest other.reverse (List.reverse_suffix.mpr hother)
      (by rwa [List.reverse_reverse, isDirectory?_join_fileName hs hother])
    simpa using List.reverse_prefix.mpr hsuffix
  · rintro ⟨above, habove, rfl, hfound, hlongest⟩
    refine ⟨above.reverse, List.reverse_suffix.mpr habove, ?_, ?_, fun rs hrs h => ?_⟩
    · rw [List.reverse_reverse, hpath habove]
    · rwa [List.reverse_reverse, isDirectory?_join_fileName hs habove]
    · have hother : rs.reverse <+: ss := by simpa using List.reverse_prefix.mpr hrs
      have hlonger := hlongest _ hother ((isDirectory?_join_fileName hs hother).mp h)
      exact List.reverse_prefix.mp (by simpa using hlonger)

theorem findAbove_eq_none_iff (hs : ∀ s ∈ ss, Path.IsName s) :
    findAbove files ss.reverse = none ↔
      ∀ above, above <+: ss → ¬ files.HasFile (above ++ [fileName]) := by
  rw [findAbove_eq, List.map_map, find?_map_tails_eq_none_iff]
  simp only [Function.comp_apply, decide_eq_true_eq]
  constructor
  · intro h above habove hfile
    refine h above.reverse (List.reverse_suffix.mpr habove) ?_
    rwa [List.reverse_reverse, isDirectory?_join_fileName hs habove]
  · intro h rs hrs hfile
    have habove : rs.reverse <+: ss := by simpa using List.reverse_prefix.mpr hrs
    exact h rs.reverse habove ((isDirectory?_join_fileName hs habove).mp hfile)

/-- The search starts at the given path, or above it if there is a file. -/
theorem exists_find_eq (hcwd : Path.isAbsolute cwd) (files : FileTree) (start : String) :
    ∃ place, (files.HasFile (Path.cleanSegments (Path.absolute cwd start)) ∧
          place = (Path.cleanSegments (Path.absolute cwd start)).dropLast ∨
        ¬ files.HasFile (Path.cleanSegments (Path.absolute cwd start)) ∧
          place = Path.cleanSegments (Path.absolute cwd start)) ∧
      (∀ s ∈ place, Path.IsName s) ∧ find files cwd start = findAbove files place.reverse := by
  have habs : Path.isAbsolute (Path.absolute cwd start) := Path.isAbsolute_absolute hcwd start
  have hpath := Path.absolute_eq_ofSegments hcwd start
  have hs : ∀ s ∈ Path.cleanSegments (Path.absolute cwd start), Path.IsName s :=
    fun s => Path.isName_of_mem_cleanSegments habs
  simp only [find]
  generalize Path.cleanSegments (Path.absolute cwd start) = place at hpath hs ⊢
  rw [hpath]
  split_ifs with hdir
  · have hfile := (FileTree.isDirectory?_eq_false_iff hs).mp hdir
    obtain ⟨bytes, hbytes⟩ := hfile.file
    have hne : place ≠ [] := by
      rintro rfl
      cases hbytes
    have hsplit := List.dropLast_append_getLast hne
    have hparts : ∀ s ∈ place.dropLast, Path.IsName s :=
      fun s h => hs s (List.mem_of_mem_dropLast h)
    refine ⟨place.dropLast, .inl ⟨hfile, rfl⟩, hparts, ?_⟩
    rw [← hsplit, Path.dir_ofSegments_concat hparts (hs _ (List.getLast_mem hne)),
      Path.cleanSegments_ofSegments hparts, List.dropLast_concat]
  · have hfile := mt (FileTree.isDirectory?_eq_false_iff hs).mpr hdir
    exact ⟨place, .inr ⟨hfile, rfl⟩, hs, by rw [Path.cleanSegments_ofSegments hs]⟩

theorem loadAbove_eq_notFound_iff {read : ByteArray → Except Yaml.DecodeError Manifest} :
    loadAbove files cwd start read = .error .notFound ↔ find files cwd start = none := by
  unfold loadAbove
  cases hfind : find files cwd start with
  | none => simp
  | some path =>
    simp only [reduceCtorEq, iff_false]
    unfold load
    dsimp only
    split_ifs with hpath
    · simp
    · split <;> simp
      split_ifs <;> simp

/--
The search for a manifest starts at the given path, or above it if a file is there, and goes up to the
root: there is one way up, which ends, and the manifest is the first file of its name on that way. So
it is the one in the longest of these paths that has such a file, and none is found exactly if none of
them has one, however manifests are read.
-/
theorem find_nearest (hcwd : Path.isAbsolute cwd) (files : FileTree) (start : String) :
    ∃ place, (files.HasFile (Path.cleanSegments (Path.absolute cwd start)) ∧
          place = (Path.cleanSegments (Path.absolute cwd start)).dropLast ∨
        ¬ files.HasFile (Path.cleanSegments (Path.absolute cwd start)) ∧
          place = Path.cleanSegments (Path.absolute cwd start)) ∧
      (∃ ds, (∀ ds', Path.Ascends (Path.ofSegments true place) ds' ↔ ds' = ds) ∧
        find files cwd start = (ds.map (Path.join · fileName)).find?
          fun path => files.isDirectory? "/" path = some false) ∧
      (∀ path, find files cwd start = some path ↔
        ∃ above, above <+: place ∧ path = Path.ofSegments true (above ++ [fileName]) ∧
          files.HasFile (above ++ [fileName]) ∧
          ∀ other, other <+: place → files.HasFile (other ++ [fileName]) → other <+: above) ∧
      ∀ read, loadAbove files cwd start read = .error .notFound ↔
        ∀ above, above <+: place → ¬ files.HasFile (above ++ [fileName]) := by
  obtain ⟨place, hplace, hs, hfind⟩ := exists_find_eq hcwd files start
  refine ⟨place, hplace, ⟨_, fun ds' => ?_, hfind.trans (findAbove_eq files _)⟩, fun path => ?_,
    fun read => ?_⟩
  · rw [← Path.ascends_iff (by simpa using hs), List.reverse_reverse]
  · rw [hfind, findAbove_eq_some_iff hs]
  · rw [loadAbove_eq_notFound_iff, hfind, findAbove_eq_none_iff hs]

/-- The path to start from is missing, and above it there is a directory with the name of a manifest. -/
theorem find_nearest_passing_directory :
    let files : FileTree := ⟨[(["p"], .directory), (["p", fileName], .file ⟨#[]⟩),
      (["p", "a"], .directory), (["p", "a", fileName], .directory)]⟩
    Path.isAbsolute "/p" ∧ find files "/p" "a/missing" = some "/p/wistful.yml" ∧
      ∃ place above, above <+: place ∧ "/p/wistful.yml" = Path.ofSegments true (above ++ [fileName]) ∧
        files.HasFile (above ++ [fileName]) ∧
        ∀ other, other <+: place → files.HasFile (other ++ [fileName]) → other <+: above := by
  intro files
  have hcwd : Path.isAbsolute "/p" := by decide
  have hfind : find files "/p" "a/missing" = some "/p/wistful.yml" := by decide +kernel
  obtain ⟨place, -, -, hnearest, -⟩ := find_nearest hcwd files "a/missing"
  exact ⟨hcwd, hfind, place, (hnearest _).mp hfind⟩

end Manifest

end Scriptlet
