import Scriptlet.Proofs.Cache.Operations
import Scriptlet.Proofs.Text.Encoding

/-!
# How a checkout comes to be

A commit is copied into a scratch directory, checked out there, and moved to its place. Each of these
steps can fail, and until the move the files of the commit can be in any state. Whatever happens, the
directory of the repository has its old entries in the end, and nothing is left of the scratch
directory. If something failed there is no new entry; otherwise the commit is there, either as it was
before or as it was checked out, and nothing else is new.

## Main definitions

* `Git.IsHash`: forty hexadecimal digits
* `Cache.Chosen`: the commits that can be picked from a copy of a repository
* `Cache.CheckedOut`: the files when a commit was checked out in the scratch directory
* `Cache.Installed`: the ways in which putting a commit together can end
* `Cache.Ensured`: what is there when the scratch directory is removed again

## Main statements

* `Cache.installed_installWith`, `Cache.ensured_ensureWith`: it ends in one of these ways
* `Cache.ensureWith_allOrNothing`: what is in the directory of a repository afterwards
* `Cache.keeps_ensureWith`, `Cache.find_of_ensureWith`: what was there stays, and the commit is found
-/

namespace Scriptlet

namespace Git

/-- The hash of a commit, in forty hexadecimal digits. -/
structure IsHash (hash : String) : Prop where
  hex : Text.IsHex hash
  length : hash.length = 40

variable {hash : String}

theorem IsHash.isName (h : IsHash hash) : Path.IsName hash where
  ne_empty he := by simpa [he] using h.length
  ne_dot he := absurd (he ▸ h.length) (by decide)
  ne_up he := absurd (he ▸ h.length) (by decide)
  no_slash hc := absurd (h.hex _ hc) (by decide)

theorem IsHash.utf8ByteSize_le (h : IsHash hash) : hash.utf8ByteSize ≤ 255 := by
  have hsize := Text.utf8ByteSize_le hash
  rw [h.length] at hsize
  omega

/-- The name of a scratch directory has a letter that is no digit. -/
theorem IsHash.ne_scratch (h : IsHash hash) (s : String) : hash ≠ "git-fetch-" ++ s := by
  rintro rfl
  have hg : 'g' ∈ ("git-fetch-" ++ s).toList := by
    rw [String.toList_append]
    exact List.mem_append_left _ (by decide)
  exact absurd (h.hex _ hg) (by decide)

theorem isSome_of_mem_bytes {cs : List Char} {c : Char} (h : c ∈ hashOfText.bytes cs) :
    (Text.hexValue? c).isSome := by
  fun_induction hashOfText.bytes cs with
  | case1 a b rest x y hx hy ih =>
    rw [List.mem_append, List.mem_append] at h
    rcases h with (h | h) | h
    · exact Text.isSome_of_mem_hexDigits h
    · exact Text.isSome_of_mem_hexDigits h
    · exact ih h
  | case2 => cases h
  | case3 => cases h

theorem isHash_hashOfText (text : String) : IsHash (hashOfText text) where
  hex c hc := by
    simp only [hashOfText, String.toList_ofList, List.mem_append] at hc
    rcases hc with hc | hc
    · exact isSome_of_mem_bytes (List.mem_of_mem_take hc)
    · rw [List.eq_of_mem_replicate hc]
      decide
  length := by
    simp [hashOfText]

end Git

namespace FileTree

variable {t t' : FileTree} {base scratch q : List String} {cwd path s : String}

/-! ## Below a directory -/

theorem not_prefix_of_ne {a b : String} (h : a ≠ b) (ha : base ++ [a] <+: q) :
    ¬ base ++ [b] <+: q := by
  intro hb
  have heq := (List.prefix_of_prefix_length_le ha hb (by simp)).eq_of_length (by simp)
  exact h (by simpa using heq)

theorem entryAt?_remove_of_agreeOff (hs : scratch ≠ []) (h : AgreeOff scratch t t')
    (hfresh : ∀ q, scratch <+: q → t.entryAt? q = none) (q : List String) :
    (t'.remove scratch).entryAt? q = t.entryAt? q := by
  by_cases hq : scratch <+: q
  · rw [entryAt?_remove_below hs hq, hfresh q hq]
  · rw [agreeOff_remove scratch t' q hq, h q hq]

/-- Everything above the place is there. -/
def HasAbove (place : List String) (t : FileTree) : Prop :=
  ∀ q, q <+: place → q ≠ place → (t.entryAt? q).isSome

theorem HasAbove.agreeOff (h : HasAbove scratch t) (hsame : SameOutside scratch t t') :
    AgreeOff scratch t t' := by
  intro q hq
  rcases hsame q hq with hsame | ⟨habove, hnone, -⟩
  · exact hsame
  · have hsome := h q habove fun he => hq (he ▸ List.prefix_rfl)
    simp [hnone] at hsome

theorem HasAbove.of_agreeOff (h : HasAbove scratch t) (hagree : AgreeOff scratch t t') :
    HasAbove scratch t' := by
  intro q hq hne
  rw [hagree q fun hs => hne (hq.eq_of_length_le hs.length_le)]
  exact h q hq hne

end FileTree

namespace Cache

open FileTree

/-! ## Putting a commit together -/

section Installing

variable {ops : Operations} {url dir hash : String} {base scratch : List String} {w : World}
  {choose : Git.Repository → Except CacheError String} {r : Git.Repository} {t t' copied : FileTree}
  {v : World}

/-- The commit `hash` is picked from a copy of the repository, made anywhere in a world such as `w`. -/
def Chosen (ops : Operations) (url : String) (choose : Git.Repository → Except CacheError String)
    (w : World) (hash : String) : Prop :=
  ∃ r place files log copied,
    ops.clone url place { w with files, log } = (.ok r, copied) ∧ choose r = .ok hash

theorem chosen_of_clone (hclone : ops.clone url scratch w = (.ok r, copied))
    (hchoose : choose r = .ok hash) : Chosen ops url choose w hash :=
  ⟨r, scratch, w.files, w.log, copied, hclone, hchoose⟩

/--
From the world `w`, a copy of the repository was made in the scratch directory, and the commit `hash`
that was chosen was checked out there. This left the files `t`.
-/
def CheckedOut (ops : Operations) (url : String) (scratch : List String)
    (choose : Git.Repository → Except CacheError String) (hash : String) (w : World)
    (t : FileTree) : Prop :=
  ∃ r copied, ops.clone url scratch w = (.ok r, copied) ∧ choose r = .ok hash ∧
    ops.checkOut r hash scratch { w with files := copied } = (.ok (), t)

theorem CheckedOut.chosen (h : CheckedOut ops url scratch choose hash w t) :
    Chosen ops url choose w hash := by
  obtain ⟨r, copied, hclone, hchoose, -⟩ := h
  exact chosen_of_clone hclone hchoose

/-- How putting a commit together can end in a world `w`, with the repository's directory at `base`. -/
inductive Installed (ops : Operations) (url : String) (base scratch : List String)
    (choose : Git.Repository → Except CacheError String) (w : World) :
    Except CacheError String → FileTree → Prop
  /-- Something failed, and at most the scratch directory has changed. -/
  | failed {e : CacheError} {t : FileTree} (h : AgreeOff scratch w.files t) :
      Installed ops url base scratch choose w (.error e) t
  /-- The commit is there already, and at most the scratch directory has changed. -/
  | cached {hash : String} {t : FileTree} (chosen : Chosen ops url choose w hash)
      (h : AgreeOff scratch w.files t) (there : (t.entryAt? (base ++ [hash])).isSome) :
      Installed ops url base scratch choose w (.ok hash) t
  /-- The scratch directory was moved to the place of the commit, where nothing was. -/
  | moved {hash : String} {t : FileTree} (checked : CheckedOut ops url scratch choose hash w t)
      (h : AgreeOff scratch w.files t) (vacant : t.entryAt? (base ++ [hash]) = none)
      (there : (t.entryAt? scratch).isSome) :
      Installed ops url base scratch choose w (.ok hash) (t.move scratch (base ++ [hash]))

theorem installed_settleWith {path : String} (hops : ops.Lawful) (hc : Path.isAbsolute w.cwd)
    (habove : HasAbove scratch w.files) (hclone : ops.clone url scratch w = (.ok r, copied))
    (hchoose : choose r = .ok hash) (hnew : ¬ scratch <+: base ++ [hash])
    (hpath : Path.cleanSegments (Path.absolute w.cwd path) = base ++ [hash]) :
    let out := (settleWith ops r hash scratch path).outcome { w with files := copied }
    Installed ops url base scratch choose w out.1 out.2.files := by
  have hcopied : AgreeOff scratch w.files copied := by
    have hsame := habove.agreeOff (hops.clone url scratch w)
    rwa [hclone] at hsame
  have hchecked : AgreeOff scratch copied (ops.checkOut r hash scratch { w with files := copied }).2 :=
    (habove.of_agreeOff hcopied).agreeOff (hops.checkOut r hash scratch { w with files := copied })
  simp only [settleWith, Task.outcome_bind, Task.outcome_get]
  cases hfind : copied.find w.cwd path with
  | entry target e =>
    obtain rfl := (place_of_find_entry hc hfind).trans hpath
    have hthere := entryAt?_of_find hfind
    exact .cached (chosen_of_clone hclone hchoose) hcopied (by simp [hthere])
  | vacant target =>
    obtain rfl := (place_of_find_vacant hc hfind).trans hpath
    simp only [Task.outcome_bind, Task.outcome_onFiles, Task.outcome_pure]
    rcases hout : ops.checkOut r hash scratch { w with files := copied } with ⟨e | ⟨⟩, t⟩
    · rw [hout] at hchecked
      exact .failed (hcopied.trans hchecked)
    rw [hout] at hchecked
    have hvacant : t.entryAt? (base ++ [hash]) = none := by
      rw [hchecked _ hnew, entryAt?_of_find_vacant hfind]
    rcases hops.rename scratch (base ++ [hash]) { w with files := t } hvacant with
      ⟨e, hrename⟩ | ⟨hsource, hrename⟩
    · simp only [hrename]
      exact .failed (hcopied.trans hchecked)
    · simp only [hrename]
      exact .moved ⟨r, copied, hclone, hchoose, hout⟩ (hcopied.trans hchecked) hvacant hsource
  | blocked cause =>
    simp only [Task.outcome_bind, Task.outcome_onFiles]
    rcases hout : ops.checkOut r hash scratch { w with files := copied } with ⟨e | ⟨⟩, t⟩
    · rw [hout] at hchecked
      exact .failed (hcopied.trans hchecked)
    · rw [hout] at hchecked
      exact .failed (hcopied.trans hchecked)

/-- The world in which a repository is copied. -/
def started (url : String) (w : World) : World :=
  { w with log := w.log ++ [⟨.debug, "cloning prelude repository", [("git", .text url)]⟩] }

theorem installed_installWith (hops : ops.Lawful) (hc : Path.isAbsolute w.cwd)
    (habove : HasAbove scratch w.files)
    (htarget : ∀ hash, Chosen ops url choose w hash → ¬ scratch <+: base ++ [hash] ∧
      Path.cleanSegments (Path.absolute w.cwd (Path.join dir hash)) = base ++ [hash]) :
    let out := (installWith ops url dir scratch choose).outcome w
    Installed ops url base scratch choose (started url w) out.1 out.2.files := by
  have hcopied := habove.agreeOff (hops.clone url scratch (started url w))
  have hreport : (Task.report .debug "cloning prelude repository" [("git", .text url)] :
      Task CacheError Unit).outcome w = (.ok (), started url w) := rfl
  simp only [installWith, Task.outcome_bind, hreport, Task.outcome_onFiles, Task.outcome_orFail]
  rcases hclone : ops.clone url scratch (started url w) with ⟨e | r, copied⟩
  · rw [hclone] at hcopied
    exact .failed hcopied
  rcases hchoose : choose r with e | hash
  · rw [hclone] at hcopied
    simp only [hchoose]
    exact .failed hcopied
  obtain ⟨hnew, hplace⟩ := htarget hash (chosen_of_clone (w := started url w) hclone hchoose)
  simp only [hchoose, Except.mapError]
  exact installed_settleWith (w := started url w) hops hc habove hclone hchoose hnew hplace

/-! ## Afterwards -/

/-- What is there when the scratch directory is removed again. -/
inductive Ensured (ops : Operations) (url : String) (base scratch : List String)
    (choose : Git.Repository → Except CacheError String) (w : World) :
    Except CacheError String → FileTree → Prop
  /-- Something failed, and every entry is as it was. -/
  | failed {e : CacheError} {t : FileTree} (h : ∀ q, t.entryAt? q = w.files.entryAt? q) :
      Ensured ops url base scratch choose w (.error e) t
  /-- The commit was there, and every entry is as it was. -/
  | kept {hash : String} {t : FileTree} (chosen : Chosen ops url choose w hash)
      (h : ∀ q, t.entryAt? q = w.files.entryAt? q)
      (there : (w.files.entryAt? (base ++ [hash])).isSome) :
      Ensured ops url base scratch choose w (.ok hash) t
  /-- The commit is new, with all that was checked out, and every other entry is as it was. -/
  | added {hash : String} {t checked : FileTree} (h : AgreeOff (base ++ [hash]) w.files t)
      (vacant : w.files.entryAt? (base ++ [hash]) = none)
      (there : (t.entryAt? (base ++ [hash])).isSome)
      (complete : CheckedOut ops url scratch choose hash w checked)
      (below : ∀ q, t.entryAt? (base ++ [hash] ++ q) = checked.entryAt? (scratch ++ q)) :
      Ensured ops url base scratch choose w (.ok hash) t

theorem ensured_of_installed {out : Except CacheError String} {name : String}
    (hname : ∀ hash, Chosen ops url choose w hash → hash ≠ name)
    (hbelow : ∀ s q, base ++ [s] <+: q → w.files.entryAt? (base ++ [s]) = none →
      w.files.entryAt? q = none)
    (hnew : w.files.entryAt? (base ++ [name]) = none)
    (h : Installed ops url base (base ++ [name]) choose w out t) :
    Ensured ops url base (base ++ [name]) choose w out (t.remove (base ++ [name])) := by
  have hs : base ++ [name] ≠ [] := by simp
  have hfresh : ∀ q, base ++ [name] <+: q → w.files.entryAt? q = none :=
    fun q hq => hbelow name q hq hnew
  cases h with
  | failed h => exact .failed (entryAt?_remove_of_agreeOff hs h hfresh)
  | cached chosen h there =>
    refine .kept chosen (entryAt?_remove_of_agreeOff hs h hfresh) ?_
    rwa [← h _ (not_prefix_of_ne (hname _ chosen) List.prefix_rfl)]
  | @moved hash t checked h vacant there =>
    have hother : ∀ q, base ++ [hash] <+: q → ¬ base ++ [name] <+: q :=
      fun q => not_prefix_of_ne (hname hash checked.chosen)
    have hwas : w.files.entryAt? (base ++ [hash]) = none := by
      rwa [← h _ (hother _ List.prefix_rfl)]
    have hbefore (q : List String) : t.entryAt? (base ++ [hash] ++ q) = none := by
      rw [h _ (hother _ (List.prefix_append _ _))]
      exact hbelow hash _ (List.prefix_append _ _) hwas
    have hmoved (q : List String) :
        ((t.move (base ++ [name]) (base ++ [hash])).remove (base ++ [name])).entryAt?
          (base ++ [hash] ++ q) = t.entryAt? (base ++ [name] ++ q) := by
      rw [agreeOff_remove _ _ _ (hother _ (List.prefix_append _ _)),
        entryAt?_move_target hs (by simp) hbefore]
    refine .added (fun q hq => ?_) hwas ?_ checked hmoved
    · by_cases hscratch : base ++ [name] <+: q
      · rw [entryAt?_remove_below hs hscratch, hfresh q hscratch]
      · rw [agreeOff_remove _ _ _ hscratch, entryAt?_move_of_not_below hscratch hq, h q hscratch]
    · have htarget := hmoved []
      rw [List.append_nil, List.append_nil] at htarget
      rwa [htarget]

theorem Ensured.chosen {out : Except CacheError String}
    (h : Ensured ops url base scratch choose w out t) (hout : out = .ok hash) :
    Chosen ops url choose w hash := by
  subst hout
  cases h with
  | kept chosen => exact chosen
  | added _ _ _ complete => exact complete.chosen

/-- At most the place of the commit has changed. -/
theorem Ensured.entryAt?_eq {out : Except CacheError String} {q : List String}
    (h : Ensured ops url base scratch choose w out t)
    (hq : ∀ hash, out = .ok hash → ¬ base ++ [hash] <+: q) : t.entryAt? q = w.files.entryAt? q := by
  cases h with
  | failed h => exact h q
  | kept _ h => exact h q
  | added h => exact h q (hq _ rfl)

/-- Nothing that was there has changed. -/
theorem Ensured.entryAt?_eq_of_isSome {out : Except CacheError String} {q : List String}
    (h : Ensured ops url base scratch choose w out t)
    (hbelow : ∀ s q, base ++ [s] <+: q → w.files.entryAt? (base ++ [s]) = none →
      w.files.entryAt? q = none)
    (hq : (w.files.entryAt? q).isSome) : t.entryAt? q = w.files.entryAt? q := by
  cases h with
  | failed h => exact h q
  | kept _ h => exact h q
  | added h vacant =>
    refine h q fun hp => ?_
    simp [hbelow _ q hp vacant] at hq

/-- The commit is there, as it was before or as it was checked out. -/
theorem Ensured.commit {out : Except CacheError String}
    (h : Ensured ops url base scratch choose w out t') (hfiles : Prepared base t w.files)
    (hout : out = .ok hash) :
    (t'.entryAt? (base ++ [hash])).isSome ∧
      (∀ s q, s ≠ hash → base ++ [s] <+: q → t'.entryAt? q = t.entryAt? q) ∧
      ((t.entryAt? (base ++ [hash])).isSome ∧
          (∀ q, base ++ [hash] <+: q → t'.entryAt? q = t.entryAt? q) ∨
        t.entryAt? (base ++ [hash]) = none ∧
          ∃ checked, CheckedOut ops url scratch choose hash w checked ∧
            ∀ q, t'.entryAt? (base ++ [hash] ++ q) = checked.entryAt? (scratch ++ q)) := by
  subst hout
  cases h with
  | kept chosen h there =>
    have hkept {s : String} {q : List String} (hq : base ++ [s] <+: q) :
        t'.entryAt? q = t.entryAt? q := (h q).trans (hfiles.below hq)
    refine ⟨?_, fun s q _ => hkept, .inl ⟨?_, fun q => hkept⟩⟩
    · rwa [h]
    · rwa [← hfiles.below List.prefix_rfl]
  | added h vacant there complete below =>
    refine ⟨there, fun s q hs hq => ?_, .inr ⟨?_, _, complete, below⟩⟩
    · exact (h q (not_prefix_of_ne hs hq)).trans (hfiles.below hq)
    · rwa [← hfiles.below List.prefix_rfl]

/-- Either there is no scratch directory, or it is removed whether the commit was put together or not. -/
theorem outcome_ensureWith {made : Except FileError Unit} {files : FileTree}
    (hbase : Path.cleanSegments (Path.absolute w.cwd dir) = base)
    (hmade : w.files.makeDirs w.cwd dir = (made, files)) :
    (∃ e, (ensureWith ops url dir choose).outcome w = (.error e, { w with files })) ∨
      ∃ name, made = .ok () ∧ ops.scratchName { w with files } base = .ok name ∧
        (ensureWith ops url dir choose).outcome w =
          ((installWith ops url dir (base ++ [name]) choose).cleanup
            (·.remove (base ++ [name]))).outcome { w with files } := by
  subst hbase
  simp only [ensureWith, place, Task.outcome_bind, Task.outcome_adapt, Task.outcome_onFiles,
    Task.outcome_get, Task.outcome_pure, Task.outcome_orFail, outcome_claim, hmade]
  rcases made with e | ⟨⟩
  · exact .inl ⟨_, rfl⟩
  simp only [Except.mapError]
  generalize hname : ops.scratchName { w with files } _ = found
  rcases found with e | name
  · exact .inl ⟨_, rfl⟩
  dsimp only
  rcases files.makeDir w.cwd (Path.join dir name) with e | _
  · exact .inl ⟨_, rfl⟩
  · exact .inr ⟨name, trivial, rfl, rfl⟩

theorem Ensured.keeps {out : Except CacheError String}
    (h : Ensured ops url base scratch choose w out t') (hfiles : Prepared base t w.files)
    (htree : t.IsTree) : w.files.Keeps t' :=
  fun _ => h.entryAt?_eq_of_isSome fun _ _ => hfiles.eq_none htree

theorem ensured_ensureWith (hops : ops.Lawful) (htree : w.files.IsTree)
    (hc : Path.isAbsolute w.cwd) (hhash : ∀ hash, Chosen ops url choose w hash → Git.IsHash hash)
    {files : FileTree} {name : String} (hbase : Path.cleanSegments (Path.absolute w.cwd dir) = base)
    (hfiles : w.files.makeDirs w.cwd dir = (.ok (), files))
    (hname : ops.scratchName { w with files } base = .ok name) :
    let out := ((installWith ops url dir (base ++ [name]) choose).cleanup
      (·.remove (base ++ [name]))).outcome { w with files }
    Ensured ops url base (base ++ [name]) choose (started url { w with files }) out.1 out.2.files := by
  obtain ⟨s, rfl⟩ := hops.front hname
  have hne : ∀ hash, Chosen ops url choose w hash → hash ≠ "git-fetch-" ++ s :=
    fun hash h => (hhash hash h).ne_scratch s
  have hfind : (w.files.makeDirs w.cwd dir).2.find w.cwd (Path.clean dir) = .entry _ .directory :=
    find_of_makeDirs hc (by rw [hfiles])
  have hprepared := prepared_makeDirs hc w.files dir
  have hmade := htree.makeDirs hc dir
  rw [hfiles, hbase] at hfind hprepared
  rw [hfiles] at hmade
  have hdir : files.entryAt? base = some .directory := entryAt?_of_find hfind
  have habove : HasAbove (base ++ ["git-fetch-" ++ s]) files := by
    intro q hq hne
    by_cases hqb : q = base
    · simp [hqb, hdir]
    · have hway : q <+: base := (List.prefix_concat_iff.mp hq).resolve_left hne
      simp [hmade base q hway hqb (by simp [hdir])]
  have htarget : ∀ hash, Chosen ops url choose w hash →
      ¬ base ++ ["git-fetch-" ++ s] <+: base ++ [hash] ∧
        Path.cleanSegments (Path.absolute w.cwd (Path.join dir hash)) = base ++ [hash] := by
    intro hash h
    refine ⟨not_prefix_of_ne (hne hash h) List.prefix_rfl, ?_⟩
    rw [← hbase]
    exact Path.cleanSegments_absolute_join hc dir (hhash hash h).isName
  have hfresh := hops.fresh hname
  rw [Task.outcome_cleanup]
  exact ensured_of_installed hne (fun s q hq => hprepared.eq_none htree hq) hfresh
    (installed_installWith hops hc habove htarget)

/-- Either there is no scratch directory, or the scratch directory is removed again. -/
theorem exists_prepared_ensureWith (hops : ops.Lawful) (htree : w.files.IsTree)
    (hc : Path.isAbsolute w.cwd) (hhash : ∀ hash, Chosen ops url choose w hash → Git.IsHash hash)
    (hbase : Path.cleanSegments (Path.absolute w.cwd dir) = base)
    {out : Except CacheError String} {v : World}
    (hrun : (ensureWith ops url dir choose).outcome w = (out, v)) :
    ∃ made files, w.files.makeDirs w.cwd dir = (made, files) ∧ Prepared base w.files files ∧
      ((∃ e, out = .error e ∧ v.files = files) ∨
        ∃ name, made = .ok () ∧ ops.scratchName { w with files } base = .ok name ∧
          Ensured ops url base (base ++ [name]) choose (started url { w with files }) out v.files) := by
  rcases hmade : w.files.makeDirs w.cwd dir with ⟨made, files⟩
  have hprepared := prepared_makeDirs hc w.files dir
  rw [hmade, hbase] at hprepared
  refine ⟨made, files, rfl, hprepared, ?_⟩
  rcases outcome_ensureWith hbase hmade with ⟨e, h⟩ | ⟨name, rfl, hname, h⟩
  · obtain ⟨rfl, rfl⟩ := Prod.mk.inj (h.symm.trans hrun)
    exact .inl ⟨e, rfl, rfl⟩
  · have hensured := ensured_ensureWith hops htree hc hhash hbase hmade hname
    rw [h.symm.trans hrun] at hensured
    exact .inr ⟨name, rfl, hname, hensured⟩

/-- Whatever happens, all that was there stays as it is. -/
theorem keeps_ensureWith (hops : ops.Lawful) (htree : w.files.IsTree)
    (hc : Path.isAbsolute w.cwd) (hhash : ∀ hash, Chosen ops url choose w hash → Git.IsHash hash)
    {out : Except CacheError String} {v : World}
    (hrun : (ensureWith ops url dir choose).outcome w = (out, v)) : w.files.Keeps v.files := by
  obtain ⟨_, files, -, hfiles, ⟨e, -, hleft⟩ | ⟨name, -, -, hensured⟩⟩ :=
    exists_prepared_ensureWith hops htree hc hhash rfl hrun
  · exact hleft ▸ hfiles.old
  · exact hfiles.old.trans (hensured.keeps hfiles htree)

/-- A commit that was made sure of is there. -/
theorem isSome_of_ensureWith (hops : ops.Lawful) (htree : w.files.IsTree)
    (hc : Path.isAbsolute w.cwd) (hhash : ∀ hash, Chosen ops url choose w hash → Git.IsHash hash)
    {v : World} (h : (ensureWith ops url dir choose).outcome w = (.ok hash, v)) :
    Git.IsHash hash ∧
      (v.files.entryAt? (Path.cleanSegments (Path.absolute w.cwd dir) ++ [hash])).isSome := by
  obtain ⟨_, files, -, hfiles, ⟨e, he, -⟩ | ⟨name, -, -, hensured⟩⟩ :=
    exists_prepared_ensureWith hops htree hc hhash rfl h
  · cases he
  · exact ⟨hhash hash (hensured.chosen rfl), (hensured.commit hfiles rfl).1⟩

/-- A commit is put in its place only if the path of that place can be followed. -/
theorem isFollowed_of_settleWith {path found : String}
    (h : (settleWith ops r hash scratch path).outcome w = (.ok found, v)) :
    IsFollowed path ∧ found = hash := by
  obtain ⟨_, _, hget, h⟩ := Task.exists_of_outcome_bind h
  obtain ⟨⟨⟩, rfl⟩ := Prod.mk.inj hget
  split at h
  · next hfind => exact ⟨(find_eq_entry_iff.mp hfind).1, (Except.ok.inj (Prod.mk.inj h).1).symm⟩
  · next hfind =>
    obtain ⟨_, _, -, h⟩ := Task.exists_of_outcome_bind h
    obtain ⟨_, _, -, h⟩ := Task.exists_of_outcome_bind h
    exact ⟨(find_eq_vacant_iff.mp hfind).1, (Except.ok.inj (Prod.mk.inj h).1).symm⟩
  · obtain ⟨_, _, -, h⟩ := Task.exists_of_outcome_bind h
    cases (Prod.mk.inj h).1

theorem isFollowed_of_installWith
    (h : (installWith ops url dir scratch choose).outcome w = (.ok hash, v)) :
    IsFollowed (Path.join dir hash) := by
  obtain ⟨_, _, -, h⟩ := Task.exists_of_outcome_bind h
  obtain ⟨_, _, -, h⟩ := Task.exists_of_outcome_bind h
  obtain ⟨found, _, -, h⟩ := Task.exists_of_outcome_bind h
  obtain ⟨hpath, rfl⟩ := isFollowed_of_settleWith h
  exact hpath

theorem isFollowed_of_ensureWith (h : (ensureWith ops url dir choose).outcome w = (.ok hash, v)) :
    IsFollowed (Path.join dir hash) := by
  rcases hmade : w.files.makeDirs w.cwd dir with ⟨made, files⟩
  rcases outcome_ensureWith rfl hmade with ⟨e, hfailed⟩ | ⟨name, -, -, hinstalled⟩
  · cases (Prod.mk.inj (hfailed.symm.trans h)).1
  · rw [hinstalled, Task.outcome_cleanup] at h
    exact isFollowed_of_installWith (Prod.ext (Prod.mk.inj h).1 rfl)

/-- The path of a commit that was made sure of leads to it. -/
theorem find_of_ensureWith (hops : ops.Lawful) (htree : w.files.IsTree)
    (hc : Path.isAbsolute w.cwd) (hhash : ∀ hash, Chosen ops url choose w hash → Git.IsHash hash)
    (hdir : Path.clean dir = dir)
    (h : (ensureWith ops url dir choose).outcome w = (.ok hash, v)) :
    ∃ place e, v.files.find w.cwd (Path.join dir hash) = .entry place e := by
  obtain ⟨hname, hthere⟩ := isSome_of_ensureWith hops htree hc hhash h
  obtain ⟨e, he⟩ := Option.isSome_iff_exists.mp hthere
  obtain ⟨made, files, hmade, hfiles, ⟨e, he, -⟩ | ⟨name, rfl, -, hensured⟩⟩ :=
    exists_prepared_ensureWith hops htree hc hhash rfl h
  · cases he
  have hfind : (w.files.makeDirs w.cwd dir).2.find w.cwd (Path.clean dir) = .entry _ .directory :=
    find_of_makeDirs hc (by rw [hmade])
  rw [hmade, hdir] at hfind
  have hkept : files.Keeps v.files := hensured.keeps hfiles htree
  exact ⟨_, e, find_join hdir (hkept.find hfind) hname.isName hname.utf8ByteSize_le
    (isFollowed_of_ensureWith h) he⟩

end Installing

/--
A commit is made sure of by any operations. Outside of the directory of the repository nothing changes,
all that was in there stays as it is, and the scratch directory is gone. If an error is returned then
nothing is new. Otherwise the commit is there: it was before, and nothing is new, or it is new with all
that was checked out, and nothing else is.
-/
theorem ensureWith_allOrNothing {ops : Operations} (hops : ops.Lawful) {w : World}
    {url dir : String} {choose : Git.Repository → Except CacheError String} (htree : w.files.IsTree)
    (hc : Path.isAbsolute w.cwd) (hhash : ∀ hash, Chosen ops url choose w hash → Git.IsHash hash) :
    let base := Path.cleanSegments (Path.absolute w.cwd dir)
    let out := (ensureWith ops url dir choose).outcome w
    let t := w.files
    let t' := out.2.files
    SameOutside base t t' ∧
      (∀ q, base <+: q → (t.entryAt? q).isSome → t'.entryAt? q = t.entryAt? q) ∧
      (∀ files name, t.makeDirs w.cwd dir = (.ok (), files) →
        ops.scratchName { w with files } base = .ok name →
        ∀ q, base ++ [name] <+: q → t'.entryAt? q = none) ∧
      (∀ e, out.1 = .error e → ∀ s q, base ++ [s] <+: q → t'.entryAt? q = t.entryAt? q) ∧
      (∀ hash, out.1 = .ok hash → (t'.entryAt? (base ++ [hash])).isSome ∧
        (∀ s q, s ≠ hash → base ++ [s] <+: q → t'.entryAt? q = t.entryAt? q) ∧
        ((t.entryAt? (base ++ [hash])).isSome ∧
            (∀ q, base ++ [hash] <+: q → t'.entryAt? q = t.entryAt? q) ∨
          t.entryAt? (base ++ [hash]) = none ∧
            ∃ files name checked, t.makeDirs w.cwd dir = (.ok (), files) ∧
              ops.scratchName { w with files } base = .ok name ∧
              CheckedOut ops url (base ++ [name]) choose hash (started url { w with files }) checked ∧
              ∀ q, t'.entryAt? (base ++ [hash] ++ q) = checked.entryAt? (base ++ [name] ++ q))) ∧
      ensure url dir choose = ensureWith .copying url dir choose := by
  rcases hrun : (ensureWith ops url dir choose).outcome w with ⟨out, v⟩
  intro base _ t t'
  have hkept : t.Keeps t' := keeps_ensureWith hops htree hc hhash hrun
  obtain ⟨made, files, hmake, hfiles, hout⟩ :=
    exists_prepared_ensureWith hops htree hc hhash rfl hrun
  have hnone {s : String} {q : List String} : base ++ [s] <+: q →
      files.entryAt? (base ++ [s]) = none → files.entryAt? q = none := hfiles.eq_none htree
  obtain ⟨e, rfl, hleft⟩ | ⟨name, rfl, hname, hensured⟩ := hout
  · have hleft : t' = files := hleft
    refine ⟨hleft ▸ hfiles.outside, fun q _ => hkept q, fun files' name hf hn q hq => ?_,
      fun e _ s q => hleft ▸ hfiles.below, by simp, ensure_eq url dir choose⟩
    obtain ⟨-, rfl⟩ := Prod.mk.inj (hmake.symm.trans hf)
    rw [hleft]
    exact hnone hq (hops.fresh hn)
  have hfresh := hops.fresh hname
  obtain ⟨front, hfront⟩ := hops.front hname
  refine ⟨fun q hq => ?outside, fun q _ => hkept q, fun files' name' hf hn q hq => ?scratch,
    fun e he s q hq => ?failed, fun hash hok => ?there, ensure_eq url dir choose⟩
  case outside =>
    rw [hensured.entryAt?_eq fun hash _ hp => hq ((List.prefix_append _ _).trans hp)]
    exact hfiles.outside q hq
  case scratch =>
    obtain ⟨-, rfl⟩ := Prod.mk.inj (hmake.symm.trans hf)
    cases hname.symm.trans hn
    refine (hensured.entryAt?_eq fun hash hout => not_prefix_of_ne ?_ hq).trans (hnone hq hfresh)
    rw [hfront]
    exact ((hhash hash (hensured.chosen hout)).ne_scratch front).symm
  case failed =>
    have hall := hensured.entryAt?_eq (q := q) fun hash hout => by cases he.symm.trans hout
    exact hall.trans (hfiles.below hq)
  case there =>
    obtain ⟨hthere, hothers, hcommit⟩ := hensured.commit hfiles hok
    refine ⟨hthere, hothers, ?_⟩
    obtain hcached | ⟨hvacant, checked, hchecked, hmoved⟩ := hcommit
    · exact .inl hcached
    · exact .inr ⟨hvacant, files, name, checked, hmake, hname, hchecked, hmoved⟩

/-- The directory `/h` has a file `a`, and a commit is added to it. -/
theorem ensureWith_allOrNothing_added :
    let hash := Git.hashOfText "c0"
    let choose : Git.Repository → Except CacheError String := fun _ => .ok hash
    let w : World :=
      { cwd := "/", files := ⟨[(["h"], .directory), (["h", "a"], .file ⟨#[49]⟩)]⟩,
        clone := fun _ => .ok ⟨[⟨hash, none, [("p.wf", ⟨#[50]⟩)]⟩], []⟩ }
    let out := (ensureWith .copying "r" "/h" choose).outcome w
    Operations.copying.Lawful ∧ w.files.IsTree ∧ Path.isAbsolute w.cwd ∧
      (∀ hash, Chosen .copying "r" choose w hash → Git.IsHash hash) ∧ out.1 = .ok hash ∧
      out.2.files.entryAt? ["h", "a"] = some (.file ⟨#[49]⟩) ∧
      (out.2.files.entryAt? ["h", hash]).isSome := by
  intro hash choose w out
  have htree : w.files.IsTree := by decide +kernel
  have hhash (hash : String) (h : Chosen .copying "r" choose w hash) : Git.IsHash hash := by
    obtain ⟨_, _, _, _, _, -, hchoose⟩ := h
    cases hchoose
    exact Git.isHash_hashOfText "c0"
  have hok : out.1 = .ok hash := by
    have hsome : out.1.toOption = some hash := by decide +kernel
    rcases hout : out.1 with e | found
    · simp [hout, Except.toOption] at hsome
    · simpa [hout, Except.toOption] using hsome
  have hbase : Path.cleanSegments (Path.absolute "/" "/h") = ["h"] := by decide
  obtain ⟨-, hold, -, -, hnew, -⟩ :=
    ensureWith_allOrNothing (w := w) Operations.lawful_copying htree (by decide) hhash
  have hthere := (hnew hash hok).1
  rw [hbase] at hthere
  exact ⟨Operations.lawful_copying, htree, by decide, hhash, hok,
    hold ["h", "a"] (by decide) (by decide), hthere⟩

end Cache

end Scriptlet
