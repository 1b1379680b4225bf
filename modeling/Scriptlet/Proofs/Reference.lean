import Scriptlet.Cache
import Scriptlet.Proofs.Lockfile
import Scriptlet.Proofs.Manifest

/-!
# References of preludes

A prelude from a repository is pinned to a revision, a tag or a branch. Four parts of the program look
for that reference on their own: the check of a manifest, the name in a lockfile, the revisions that
are tried, and the text in messages; and only one of them ignores blanks. For the preludes of a
manifest that was trimmed and found to be without issues they agree. What a lockfile records for such
a prelude is then found for no other one, whatever the names look like.

## Main definitions

* `Reference`: a revision, a tag or a branch
* `Prelude.PinnedTo`: the only reference that a prelude gives
* `Manifest.IsValid`: a manifest that was trimmed and has no issues

## Main statements

* `Reference.descriptor_injective`: different references have different names in a lockfile
* `Prelude.pinCount_eq_one_iff`: a prelude is pinned if it gives one of the three fields
* `Manifest.isValid_of_load`: manifests that are loaded are valid
* `Manifest.entries_of_load`: their preludes are all entries of their lists
* `Manifest.pinned_of_isValid`: the preludes of valid manifests are pinned, and known by their keys
-/

namespace Scriptlet

/-! ## References -/

/-- What a prelude from a repository is pinned to. -/
inductive Reference where
  | revision (name : String)
  | tag (name : String)
  | branch (name : String)
  deriving DecidableEq, Repr

namespace Reference

def name : Reference → String
  | revision n | tag n | branch n => n

/-- How a lockfile names a reference. -/
def descriptor : Reference → String
  | revision n => "rev:" ++ n
  | tag n => "tag:" ++ n
  | branch n => "branch:" ++ n

/-- The names that a repository may know a reference by. -/
def revisions : Reference → List String
  | revision n => [n]
  | tag n => ["refs/tags/" ++ n]
  | branch n => ["refs/heads/" ++ n, "refs/remotes/origin/" ++ n]

/-- The three fields of a prelude that give a reference, and no other one. -/
def fields : Reference → String × String × String
  | revision n => (n, "", "")
  | tag n => ("", n, "")
  | branch n => ("", "", n)

/-- The kind of a reference is seen from the front of its name, whatever follows. -/
theorem descriptor_injective : Function.Injective descriptor := by
  intro r s h
  cases r <;> cases s <;> simp_all [descriptor, ← String.toList_inj]

theorem descriptor_ne_empty (r : Reference) : r.descriptor ≠ "" := by
  cases r <;> simp [descriptor, ← String.toList_inj]

theorem revisions_ne_nil (r : Reference) : r.revisions ≠ [] := by
  cases r <;> simp [revisions]

end Reference

/-! ## Preludes -/

namespace Prelude

variable {p q : Prelude} {r r' : Reference}

/-- The prelude gives the reference, and no other one. -/
structure PinnedTo (p : Prelude) (r : Reference) : Prop where
  given : r.name ≠ ""
  fields : (p.rev, p.tag, p.branch) = r.fields

/-- A prelude is pinned exactly if it gives one of the three fields. -/
theorem pinCount_eq_one_iff : p.pinCount = 1 ↔ ∃ r, p.PinnedTo r := by
  constructor
  · intro h
    by_cases hrev : p.rev = ""
    · by_cases htag : p.tag = ""
      · by_cases hbranch : p.branch = ""
        · simp [pinCount, hrev, htag, hbranch] at h
        · exact ⟨.branch p.branch, hbranch, by simp [Reference.fields, hrev, htag]⟩
      · have hbranch : p.branch = "" := by simpa [pinCount, hrev, htag] using h
        exact ⟨.tag p.tag, htag, by simp [Reference.fields, hrev, hbranch]⟩
    · have hrest : p.tag = "" ∧ p.branch = "" := by simpa [pinCount, hrev] using h
      exact ⟨.revision p.rev, hrev, by simp [Reference.fields, hrest]⟩
  · rintro ⟨r, hgiven, hfields⟩
    cases r <;> simp_all [pinCount, Reference.fields, Reference.name]

namespace PinnedTo

theorem unique (h : p.PinnedTo r) (h' : p.PinnedTo r') : r = r' := by
  have hgiven := h.given
  have hfields := h.fields.symm.trans h'.fields
  cases r <;> cases r' <;> simp_all [Reference.fields, Reference.name]

theorem reference_eq (h : p.PinnedTo r) : p.reference = r.descriptor := by
  obtain ⟨hgiven, hfields⟩ := h
  cases r <;> simp_all [reference, Reference.fields, Reference.name, Reference.descriptor]

/-- The revisions are made of trimmed fields, so they name the reference if its name is trimmed. -/
theorem revisions_eq (h : p.PinnedTo r) (htrimmed : p.trimmed = p) : p.revisions = r.revisions := by
  obtain ⟨hgiven, hfields⟩ := h
  have hrev : Text.trim p.rev = p.rev := congrArg rev htrimmed
  have htag : Text.trim p.tag = p.tag := congrArg tag htrimmed
  have hbranch : Text.trim p.branch = p.branch := congrArg branch htrimmed
  simp only [revisions, hrev, htag, hbranch]
  cases r <;> simp_all [Reference.fields, Reference.name, Reference.revisions]

theorem describe_eq (h : p.PinnedTo r) (hgit : p.isGit) :
    p.describe = p.git ++ "@" ++ r.name ++ ":" ++ p.file := by
  obtain ⟨hgiven, hfields⟩ := h
  have hpin : p.pin = r.name := by
    cases r <;> simp_all [pin, Reference.fields, Reference.name]
  simp [describe, hgit, hpin]

/-- The reference is read off the key. -/
theorem eq_of_key_eq (h : p.PinnedTo r) (h' : q.PinnedTo r') (hkey : p.key = q.key)
    (hpath : p.path = q.path) : p = q := by
  simp only [key, Prod.mk.injEq] at hkey
  obtain ⟨hgit, href, hfile⟩ := hkey
  rw [h.reference_eq, h'.reference_eq] at href
  have hfields : (p.rev, p.tag, p.branch) = (q.rev, q.tag, q.branch) := by
    rw [h.fields, h'.fields, Reference.descriptor_injective href]
  simp only [Prod.mk.injEq] at hfields
  cases p
  cases q
  simp_all

end PinnedTo

/-- A prelude from a repository without issues gives one reference, and it is not a local file too. -/
theorem exists_pinnedTo_of_issues (h : p.issues = []) (hgit : p.isGit) :
    p.path = "" ∧ ∃ r, p.PinnedTo r := by
  have hgit' : p.git ≠ "" := by simpa [isGit] using hgit
  simp only [issues, List.append_eq_nil_iff, ite_eq_right_iff, reduceCtorEq, imp_false] at h
  have hpath : p.path = "" := by simpa [hgit'] using h.1.1.1.1.2
  have hzero : p.pinCount ≠ 0 := by simpa [hgit'] using h.1.1.2
  have hmany : ¬ p.pinCount > 1 := by simpa [hgit'] using h.1.2
  exact ⟨hpath, pinCount_eq_one_iff.mp (by omega)⟩

end Prelude

/-! ## Manifests -/

namespace Manifest

variable {m : Manifest} {p : Prelude}

/-- The manifest was trimmed, and it has no issues. -/
def IsValid (m : Manifest) : Prop := (∃ raw : Manifest, m = raw.normalized) ∧ m.issues = []

theorem isValid_of_load {files : FileTree} {cwd path : String}
    {read : ByteArray → Except Yaml.DecodeError Manifest} (h : load files cwd path read = .ok m) :
    m.IsValid := by
  obtain ⟨raw, -, hraw, hissues⟩ := exists_of_load h
  exact ⟨⟨raw, hraw⟩, hissues⟩

theorem issues_of_mem {index : Nat} {entries : List (Option Prelude)}
    (h : entriesIssues index entries = []) {e : Option Prelude} (he : e ∈ entries) :
    Prelude.entryIssues e = [] := by
  induction entries generalizing index with
  | nil => cases he
  | cons e' es ih =>
    simp only [entriesIssues, List.append_eq_nil_iff, List.map_eq_nil_iff] at h
    rcases List.mem_cons.mp he with rfl | he
    · exact h.1
    · exact ih h.2 he

/-- A valid manifest has no absent entries, so its preludes are all that is on its list. -/
theorem IsValid.entries_eq (h : m.IsValid) : m.entries = m.preludes.map some := by
  have hentries : entriesIssues 0 m.entries = [] := (List.append_eq_nil_iff.mp h.2).2
  have hsome : ∀ e ∈ m.entries, (id e).map some = some e := by
    intro e he
    cases e with
    | none => exact absurd (issues_of_mem hentries he) (by simp [Prelude.entryIssues])
    | some p => rfl
  rw [preludes, List.map_filterMap, List.filterMap_congr hsome, List.filterMap_some]

/-- No prelude is passed over in a manifest that was loaded. -/
theorem entries_of_load {files : FileTree} {cwd path : String}
    {read : ByteArray → Except Yaml.DecodeError Manifest} (h : load files cwd path read = .ok m) :
    m.entries = m.preludes.map some :=
  (isValid_of_load h).entries_eq

theorem IsValid.prelude (h : m.IsValid) (hp : p ∈ m.gitPreludes) :
    p.trimmed = p ∧ p.path = "" ∧ ∃ r, p.PinnedTo r := by
  obtain ⟨⟨raw, rfl⟩, hissues⟩ := h
  obtain ⟨hmem, hgit⟩ := List.mem_filter.mp hp
  have hentry : some p ∈ raw.normalized.entries := by simpa [preludes] using hmem
  have hentries : entriesIssues 0 raw.normalized.entries = [] :=
    (List.append_eq_nil_iff.mp hissues).2
  have htrimmed : p.trimmed = p := by
    obtain ⟨e, -, he⟩ := List.mem_map.mp hentry
    obtain ⟨q, -, rfl⟩ := Option.map_eq_some_iff.mp he
    exact Prelude.trimmed_trimmed q
  exact ⟨htrimmed, Prelude.exists_pinnedTo_of_issues (issues_of_mem hentries hentry) hgit⟩

/--
A prelude that comes from a repository, in a manifest that was trimmed and has no issues, gives one
reference: this is the one that is resolved, that its entry in a lockfile is recorded for, and that is
shown in messages. From its repository, its file and the name of its reference in the lockfile, all its
fields are known, so that no prelude finds an entry that was recorded for a different one.
-/
theorem pinned_of_isValid {m : Manifest} (hm : m.IsValid) {p : Prelude} (hp : p ∈ m.gitPreludes) :
    p.pinCount = 1 ∧
      (∃ r, p.PinnedTo r ∧ (∀ r', p.PinnedTo r' → r' = r) ∧
        p.revisions = r.revisions ∧ p.revisions ≠ [] ∧
        p.reference = r.descriptor ∧ p.reference ≠ "" ∧
        p.describe = p.git ++ "@" ++ r.name ++ ":" ++ p.file) ∧
      ∀ m' : Manifest, m'.IsValid → ∀ q ∈ m'.gitPreludes,
        (p.git = q.git → p.reference = q.reference → p.file = q.file → p = q) ∧
        ∀ (l : Lockfile) (s : LockedSource), s.key = p.key → l.find? q = some s → q = p := by
  obtain ⟨htrimmed, hpath, r, hr⟩ := hm.prelude hp
  have hgit : p.isGit := (List.mem_filter.mp hp).2
  have heq {m' : Manifest} (hm' : m'.IsValid) {q : Prelude} (hq : q ∈ m'.gitPreludes)
      (hkey : p.key = q.key) : p = q := by
    obtain ⟨-, hpath', r', hr'⟩ := hm'.prelude hq
    exact hr.eq_of_key_eq hr' hkey (hpath.trans hpath'.symm)
  refine ⟨Prelude.pinCount_eq_one_iff.mpr ⟨r, hr⟩, ⟨r, hr, fun r' hr' => hr'.unique hr,
    hr.revisions_eq htrimmed, ?_, hr.reference_eq, ?_, hr.describe_eq hgit⟩, ?_⟩
  · rw [hr.revisions_eq htrimmed]
    exact r.revisions_ne_nil
  · rw [hr.reference_eq]
    exact r.descriptor_ne_empty
  · intro m' hm' q hq
    refine ⟨fun h₁ h₂ h₃ => heq hm' hq (by simp [Prelude.key, h₁, h₂, h₃]), ?_⟩
    intro l s hs hfind
    have hkey : s.key = q.key := Lockfile.key_of_find? hfind
    exact (heq hm' hq (hs.symm.trans hkey)).symm

/-- A branch whose name looks like that of a revision. -/
theorem pinned_of_isValid_colon :
    let raw : Manifest :=
      { name := "a", main := "m", entries := [some { git := " r", branch := "rev:v ", file := "f" }] }
    let raw' : Manifest :=
      { name := "b", main := "m", entries := [some { git := "r", rev := " v", file := "f" }] }
    let p : Prelude := { git := "r", branch := "rev:v", file := "f" }
    let q : Prelude := { git := "r", rev := "v", file := "f" }
    raw.normalized.IsValid ∧ p ∈ raw.normalized.gitPreludes ∧ raw'.normalized.IsValid ∧
      q ∈ raw'.normalized.gitPreludes ∧ p.pinCount = 1 ∧
      (∃ r, p.PinnedTo r ∧ p.revisions = r.revisions ∧ p.reference = r.descriptor) ∧
      ∀ (l : Lockfile) (s : LockedSource), s.key = p.key → l.find? q ≠ some s := by
  intro raw raw' p q
  have hm : raw.normalized.IsValid := ⟨⟨raw, rfl⟩, by decide +kernel⟩
  have hp : p ∈ raw.normalized.gitPreludes := by decide +kernel
  have hm' : raw'.normalized.IsValid := ⟨⟨raw', rfl⟩, by decide +kernel⟩
  have hq : q ∈ raw'.normalized.gitPreludes := by decide +kernel
  obtain ⟨hcount, ⟨r, hr, -, hrevisions, -, href, -⟩, hother⟩ := pinned_of_isValid hm hp
  refine ⟨hm, hp, hm', hq, hcount, ⟨r, hr, hrevisions, href⟩, fun l s hs hfind => ?_⟩
  have hsame : q = p := (hother _ hm' q hq).2 l s hs hfind
  exact absurd hsame (by decide)

end Manifest

end Scriptlet
