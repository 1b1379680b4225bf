import Mathlib
import Scriptlet.Lockfile
import Scriptlet.Proofs.Files.Writing
import Scriptlet.Proofs.Text.Trimming

/-!
# Manifests that were loaded

A manifest that was loaded knows its directory, none of its fields has blanks at its ends, and it has
no issues, however the text is read.

## Main statements

* `Manifest.exists_of_load`: what is known of a manifest that was loaded
* `Manifest.dir_of_load`: the directory of a manifest
* `Manifest.isAbsolute_lockfilePath`: the path of its lockfile is absolute
* `Manifest.trim_name_of_load`, `Manifest.trimmed_of_load`: its fields are trimmed
-/

namespace Scriptlet

namespace Prelude

variable {p : Prelude}

@[simp] theorem trimmed_trimmed (p : Prelude) : p.trimmed.trimmed = p.trimmed := by
  simp [trimmed]

/-- The reference of a prelude has no blanks at its ends if its parts have none. -/
theorem trim_reference (h : p.trimmed = p) : Text.trim p.reference = p.reference := by
  have hrev : Text.trim p.rev = p.rev := congrArg rev h
  have htag : Text.trim p.tag = p.tag := congrArg tag h
  have hbranch : Text.trim p.branch = p.branch := congrArg branch h
  unfold reference
  split_ifs with h₁ h₂ h₃
  · exact Text.trim_append (by decide) hrev (by decide) (by simpa using h₁)
  · exact Text.trim_append (by decide) htag (by decide) (by simpa using h₂)
  · exact Text.trim_append (by decide) hbranch (by decide) (by simpa using h₃)
  · rfl

end Prelude

namespace Manifest

variable {files : FileTree} {cwd path : String} {m : Manifest}
  {read : ByteArray → Except Yaml.DecodeError Manifest}

theorem exists_of_load (h : load files cwd path read = .ok m) :
    ∃ raw : Manifest, raw.dir = Path.dir (Path.absolute cwd path) ∧ m = raw.normalized ∧
      m.issues = [] := by
  unfold load at h
  split_ifs at h
  dsimp only at h
  split at h
  · cases h
  · next given _ =>
    split_ifs at h with hissues
    obtain rfl := Except.ok.inj h
    refine ⟨{ given with path := Path.absolute cwd path, dir := Path.dir (Path.absolute cwd path) },
      ?_, rfl, List.isEmpty_iff.mp hissues⟩
    dsimp only

theorem dir_of_load (h : load files cwd path read = .ok m) :
    m.dir = Path.dir (Path.absolute cwd path) := by
  obtain ⟨raw, hdir, rfl, -⟩ := exists_of_load h
  exact hdir

theorem isAbsolute_lockfilePath (hcwd : Path.isAbsolute cwd) (h : load files cwd path read = .ok m) :
    Path.isAbsolute m.lockfilePath := by
  have hdir : Path.isAbsolute m.dir := by
    rw [dir_of_load h]
    exact Path.isAbsolute_dir (Path.isAbsolute_absolute hcwd path)
  exact Path.isAbsolute_join hdir _

theorem trim_name_of_load (h : load files cwd path read = .ok m) : Text.trim m.name = m.name := by
  obtain ⟨raw, -, rfl, -⟩ := exists_of_load h
  exact Text.trim_trim raw.name

theorem trimmed_of_load (h : load files cwd path read = .ok m) {p : Prelude} (hp : p ∈ m.preludes) :
    p.trimmed = p := by
  obtain ⟨raw, -, rfl, -⟩ := exists_of_load h
  simp only [preludes, normalized, List.mem_filterMap, List.mem_map] at hp
  obtain ⟨_, ⟨entry, -, rfl⟩, hp⟩ := hp
  obtain ⟨q, -, rfl⟩ := Option.map_eq_some_iff.mp hp
  exact Prelude.trimmed_trimmed q

end Manifest

end Scriptlet
