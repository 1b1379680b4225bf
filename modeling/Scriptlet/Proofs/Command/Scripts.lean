import Scriptlet.Command
import Scriptlet.Proofs.Session.Scripts
import Scriptlet.Proofs.Task

/-!
# Running a file and running its project

A file that is the main script of a manifest can be run by itself, after the preludes of the
manifest, or as the main script of the project. Both load everything before they run anything, and
both run the same scripts on the same variables until one of them fails; so they end with the same
code and show the same results. Only their messages and their logs are not the same.

## Main definitions

* `Command.Loads`: what there is to run for a manifest
* `Command.Refused`, `Command.Executed`: a command that ran nothing, and one that ran scripts

## Main statements

* `Command.refused_runFile`, `Command.refused_runProject`: all is loaded before anything is run
* `Command.executed_runFile`, `Command.executed_runProject`: what the two commands run
* `Command.agree_runProject_runFile`: the two commands agree
-/

namespace Scriptlet.Command

open Session

variable {cfg : Config} {quiet : Bool} {preludes : List Source} {main : Source} {loaded : World}

/-- The name of the script of a prelude. -/
def scriptName (m : Manifest) (p : Prelude) : String :=
  if p.isGit then p.describe else m.resolve p.path

/--
What loading the scripts of a manifest gives, and the world that it leaves: nothing if the lockfile,
a prelude or the main script cannot be loaded, and otherwise the preludes and the main script.
-/
inductive Loads (w : World) (m : Manifest) : Option (List Source × Source) → World → Prop
  | noProject {e : ProjectError} (h : Project.ofManifest w m = .error e) : Loads w m none w
  | noPrelude {project : Project} {e : SourceError} {loaded : World}
      (h : Project.ofManifest w m = .ok project)
      (hp : project.preludes.outcome w = (.error e, loaded)) : Loads w m none loaded
  | noMain {project : Project} {e : SourceError} {preludes : List Source} {loaded : World}
      (h : Project.ofManifest w m = .ok project)
      (hp : project.preludes.outcome w = (.ok preludes, loaded))
      (hm : Source.read loaded m.mainPath = .error e) : Loads w m none loaded
  | all {project : Project} {preludes : List Source} {main : Source} {loaded : World}
      (h : Project.ofManifest w m = .ok project)
      (hp : project.preludes.outcome w = (.ok preludes, loaded))
      (hm : Source.read loaded m.mainPath = .ok main) : Loads w m (some (preludes, main)) loaded

/--
A command that failed before anything was run: it shows no results, and it leaves the world as it
was, with its log, to which every script that parses adds.
-/
structure Refused (loaded : World) (job : Output × World) : Prop where
  code : job.1.code = 1
  out : job.1.out = ""
  world : job.2 = loaded

/--
A command that ran preludes and a main script until one of them failed. What they log is all that
the world gets, announcements of preludes apart; the results are those of the main script, if it was
run.
-/
structure Executed (cfg : Config) (quiet : Bool) (preludes : List Source) (main : Source)
    (loaded : World) (job : Output × World) : Prop where
  code : job.1.code = 0 ∧
      List.Forall₂ (Succeeds cfg) (preludes ++ [main])
        (runsUntilFailure cfg (preludes ++ [main]) {}) ∨
    job.1.code = 1 ∧
      ¬ List.Forall₂ (Succeeds cfg) (preludes ++ [main])
        (runsUntilFailure cfg (preludes ++ [main]) {})
  out : job.1.out =
    if quiet then ""
    else (((runsUntilFailure cfg (preludes ++ [main]) {})[preludes.length]?).map
      (·.report.results)).getD ""
  world : ∃ log, job.2 = { loaded with log := loaded.log ++ log } ∧
    log.filter (!isAnnouncement ·) =
      (runsUntilFailure cfg (preludes ++ [main]) {}).flatMap Run.log

/-! ## The two ways to run scripts -/

section Runs

variable {s : Evaluation.State}

theorem code_runSources : (runSources cfg quiet (preludes ++ [main]) s).1.code =
    if ∀ r ∈ runsUntilFailure cfg (preludes ++ [main]) s, r.error = none then 0 else 1 := by
  induction preludes, s using runs_induction cfg with
  | nil s => cases h : (Session.run cfg main s).error <;> simp [runSources, runsUntilFailure, h]
  | failed p rest s e h => simp [runSources, runsUntilFailure_of_error h, h]
  | next p rest s h ih => simp [runSources, runsUntilFailure_of_none h, h, ih]

theorem out_runSources : (runSources cfg quiet (preludes ++ [main]) s).1.out =
    if quiet then ""
    else (((runsUntilFailure cfg (preludes ++ [main]) s)[preludes.length]?).map
      (·.report.results)).getD "" := by
  induction preludes, s using runs_induction cfg with
  | nil s =>
    cases h : (Session.run cfg main s).error <;> cases quiet <;>
      simp [runSources, runsUntilFailure, h]
  | failed p rest s e h => simp [runSources, runsUntilFailure_of_error h, h]
  | next p rest s h ih => simp [runSources, runsUntilFailure_of_none h, h, ih]

theorem log_runSources :
    (runSources cfg quiet (preludes ++ [main]) s).2.filter (!isAnnouncement ·) =
      (runsUntilFailure cfg (preludes ++ [main]) s).flatMap Run.log := by
  induction preludes, s using runs_induction cfg with
  | nil s =>
    cases h : (Session.run cfg main s).error <;>
      simp [runSources, runsUntilFailure, h, filter_log_run]
  | failed p rest s e h => simp [runSources, runsUntilFailure_of_error h, h, filter_log_run]
  | next p rest s h ih => simp [runSources, runsUntilFailure_of_none h, h, filter_log_run, ih]

theorem reports_runScripts : (Project.runScripts cfg main preludes s).reports =
    (runsUntilFailure cfg (preludes ++ [main]) s).map Run.report := by
  induction preludes, s using runs_induction cfg with
  | nil s => simp [Project.runScripts, runsUntilFailure]
  | failed p rest s e h => simp [Project.runScripts, runsUntilFailure_of_error h, h]
  | next p rest s h ih => simp [Project.runScripts, runsUntilFailure_of_none h, h, ih]

/-- There are more reports than preludes if and only if the last one is that of the main script. -/
theorem results_runScripts :
    (if (Project.runScripts cfg main preludes s).reports.length = preludes.length + 1 ∧ !quiet then
      ((Project.runScripts cfg main preludes s).reports.getLast?.map (·.results)).getD "" else "") =
    if quiet then ""
    else (((runsUntilFailure cfg (preludes ++ [main]) s)[preludes.length]?).map
      (·.report.results)).getD "" := by
  have hle := length_runsUntilFailure_le cfg (preludes ++ [main]) s
  rw [List.length_append, List.length_singleton] at hle
  rw [reports_runScripts, List.length_map, List.getLast?_eq_getElem?, List.length_map,
    List.getElem?_map, Option.map_map]
  cases quiet with
  | true => simp
  | false =>
    by_cases hall : (runsUntilFailure cfg (preludes ++ [main]) s).length = preludes.length + 1
    · simp [hall]
    · have hnone : (runsUntilFailure cfg (preludes ++ [main]) s)[preludes.length]? = none := by
        rw [List.getElem?_eq_none_iff]
        omega
      simp [hall, hnone]

theorem failure_runScripts_eq_none_iff : (Project.runScripts cfg main preludes s).failure = none ↔
    ∀ r ∈ runsUntilFailure cfg (preludes ++ [main]) s, r.error = none := by
  induction preludes, s using runs_induction cfg with
  | nil s => simp [Project.runScripts, runsUntilFailure]
  | failed p rest s e h => simp [Project.runScripts, runsUntilFailure_of_error h, h]
  | next p rest s h ih => simp [Project.runScripts, runsUntilFailure_of_none h, h, ih]

theorem log_runScripts : (Project.runScripts cfg main preludes s).log.filter (!isAnnouncement ·) =
    (runsUntilFailure cfg (preludes ++ [main]) s).flatMap Run.log := by
  have hannounced (fields : List (String × Log.Field)) :
      isAnnouncement ⟨.info, "running prelude", fields⟩ = true := rfl
  induction preludes, s using runs_induction cfg with
  | nil s => simp [Project.runScripts, runsUntilFailure, filter_log_run]
  | failed p rest s e h =>
    simp [Project.runScripts, runsUntilFailure_of_error h, h, hannounced, filter_log_run]
  | next p rest s h ih =>
    simp [Project.runScripts, runsUntilFailure_of_none h, h, hannounced, filter_log_run, ih]

end Runs

/-! ## Loading -/

section Loading

variable {m : Manifest} {w w' : World} {project : Project} {p : Prelude} {src : Source}

theorem name_of_read {path : String} (h : Source.read w path = .ok src) : src.name = path := by
  unfold Source.read at h
  split at h
  · cases h
    rfl
  · cases h

theorem name_of_readCached {path : String}
    (h : (Project.readCached p path).outcome w = (.ok src, w')) : src.name = p.describe := by
  obtain ⟨v, w₁, -, h⟩ := Task.exists_of_outcome_bind h
  obtain ⟨cached, w₂, -, h⟩ := Task.exists_of_outcome_bind h
  obtain ⟨⟨⟩, -⟩ := Prod.mk.inj h
  rfl

theorem name_of_load (h : (project.load p).outcome w = (.ok src, w')) :
    src.name = scriptName project.manifest p := by
  unfold Project.load at h
  unfold scriptName
  cases hgit : p.isGit with
  | false =>
    simp only [hgit, Bool.not_false, if_true] at h
    obtain ⟨-, w₁, -, h⟩ := Task.exists_of_outcome_bind h
    obtain ⟨v, w₂, -, h⟩ := Task.exists_of_outcome_bind h
    simpa using name_of_read (Task.of_outcome_orFail h).1
  | true =>
    simp only [hgit, Bool.not_true, Bool.false_eq_true, if_false] at h
    split at h
    · simp at h
    · split at h
      · obtain ⟨path, w₁, -, h⟩ := Task.exists_of_outcome_bind h
        simpa using name_of_readCached h
      · obtain ⟨-, w₁, -, h⟩ := Task.exists_of_outcome_bind h
        obtain ⟨s, w₂, -, h⟩ := Task.exists_of_outcome_bind h
        simpa using name_of_readCached h

theorem names_of_preludes {preludes : List Source}
    (h : project.preludes.outcome w = (.ok preludes, w')) :
    preludes.map Source.name = project.manifest.preludes.map (scriptName project.manifest) := by
  rw [← List.forall₂_eq_eq_eq, List.forall₂_map_left_iff, List.forall₂_map_right_iff]
  refine (Task.forall₂_of_outcome_mapM h).flip.imp ?_
  rintro src p ⟨v, v', hload⟩
  exact name_of_load hload

theorem manifest_of_ofManifest (h : Project.ofManifest w m = .ok project) :
    project.manifest = m := by
  unfold Project.ofManifest at h
  cases hl : Project.findLockfile w m with
  | error e => simp [hl, bind, Except.bind] at h
  | ok lockfile =>
    simp only [hl, bind, Except.bind] at h
    split at h
    · cases h
      rfl
    · split at h
      · cases h
      · cases h
        rfl

theorem Loads.names {preludes : List Source} {main : Source}
    (h : Loads w m (some (preludes, main)) loaded) :
    preludes.map Source.name = m.preludes.map (scriptName m) ∧ main.name = m.mainPath := by
  cases h with
  | all h hp hm =>
    have hmanifest := manifest_of_ofManifest h
    exact ⟨hmanifest ▸ names_of_preludes hp, name_of_read hm⟩

theorem exists_loads (w : World) (m : Manifest) : ∃ scripts loaded, Loads w m scripts loaded := by
  cases h : Project.ofManifest w m with
  | error e => exact ⟨_, _, .noProject h⟩
  | ok project =>
    rcases hp : project.preludes.outcome w with ⟨e | preludes, loaded⟩
    · exact ⟨_, _, .noPrelude h hp⟩
    · cases hm : Source.read loaded m.mainPath with
      | error e => exact ⟨_, _, .noMain h hp hm⟩
      | ok main => exact ⟨_, _, .all h hp hm⟩

end Loading

/-! ## The two commands -/

section Jobs

variable {passes : Nat} {o : Options} {m : Manifest} {w : World} {logger : Logger}
  {scripts : Option (List Source × Source)}

/-- A file is loaded together with the preludes of its manifest. -/
theorem outcome_sources_of_loads (h : Loads w m scripts loaded) :
    match scripts with
    | none => ∃ e, (sources (some m) m.mainPath).outcome w = (.error e, loaded)
    | some (preludes, main) =>
      (sources (some m) m.mainPath).outcome w = (.ok (preludes ++ [main]), loaded) := by
  unfold sources
  cases h with
  | noProject h => simp [Task.outcome_bind, h, Except.mapError]
  | noPrelude h hp => simp [Task.outcome_bind, Task.outcome_adapt, h, hp, Except.mapError]
  | noMain h hp hm =>
    simp [Task.outcome_bind, Task.outcome_adapt, Task.outcome_map, h, hp, hm, Except.mapError,
      Except.map]
  | all h hp hm =>
    simp [Task.outcome_bind, Task.outcome_adapt, Task.outcome_map, h, hp, hm, Except.mapError,
      Except.map]

theorem run_runFile (ho : o.logger = .ok logger) (given : Option Manifest) (entry : String) :
    (runFile passes o given entry).run w =
      match (sources given entry).outcome w with
      | (.error e, loaded) => (withLog logger (.failed 1 e.message)).run loaded
      | (.ok srcs, loaded) =>
        let r := runSources (o.config passes) o.quiet srcs {}
        (withLog logger r.1).run { loaded with log := loaded.log ++ r.2 } := by
  simp only [runFile, ho, Task.run_bind_run]
  rcases (sources given entry).outcome w with ⟨e | srcs, loaded⟩ <;> rfl

theorem refused_runFile (ho : o.logger = .ok logger) (h : Loads w m none loaded) :
    Refused loaded ((runFile passes o (some m) m.mainPath).run w) := by
  obtain ⟨e, he⟩ := outcome_sources_of_loads h
  rw [run_runFile ho, he]
  exact ⟨rfl, rfl, rfl⟩

theorem executed_runFile (ho : o.logger = .ok logger)
    (h : Loads w m (some (preludes, main)) loaded) :
    Executed (o.config passes) o.quiet preludes main loaded
      ((runFile passes o (some m) m.mainPath).run w) := by
  rw [run_runFile ho, outcome_sources_of_loads h]
  refine ⟨?_, out_runSources, _, rfl, log_runSources⟩
  rw [forall₂_succeeds_iff]
  change (runSources _ _ _ _).1.code = 0 ∧ _ ∨ (runSources _ _ _ _).1.code = 1 ∧ _
  rw [code_runSources]
  split_ifs with hall
  · exact .inl ⟨rfl, hall⟩
  · exact .inr ⟨rfl, hall⟩

theorem run_project (cfg : Config) (project : Project) :
    (project.run cfg).run w =
      match project.preludes.outcome w with
      | (.error e, loaded) => ({ failure := some (.load e) }, loaded)
      | (.ok preludes, loaded) =>
        match Source.read loaded project.manifest.mainPath with
        | .error e => ({ failure := some (.load e) }, loaded)
        | .ok main => (Project.runScripts cfg main preludes {}, loaded) := by
  have hmain (v : World) : project.mainSource.outcome v =
      (Source.read v project.manifest.mainPath, v) := by
    simp only [Project.mainSource, Task.outcome_bind, Task.outcome_get, Task.outcome_orFail]
    cases Source.read v project.manifest.mainPath <;> rfl
  rw [Project.run, Task.run_bind_run]
  simp only [Task.outcome_bind]
  rcases project.preludes.outcome w with ⟨e | preludes, loaded⟩
  · rfl
  · simp only [hmain]
    cases Source.read loaded project.manifest.mainPath <;> rfl

/-- What a project that was run shows and leaves. -/
theorem exists_run_runProject {project : Project} {r : Project.Run} (ho : o.logger = .ok logger)
    (hp : Project.ofManifest w m = .ok project)
    (hr : (project.run (o.config passes)).run w = (r, loaded)) :
    ∃ err, (runProject passes o m).run w =
      (⟨if r.failure = none then 0 else 1,
        if r.reports.length = m.preludes.length + 1 ∧ !o.quiet then
          (r.reports.getLast?.map (·.results)).getD "" else "", err⟩,
        { loaded with log := loaded.log ++ r.log }) := by
  simp only [runProject, ho]
  rw [Task.run_bind_of_eq (rfl : (get : StateM World World).run w = (w, w)), hp,
    Task.run_bind_of_eq hr]
  cases hf : r.failure with
  | none => exact ⟨_, rfl⟩
  | some f => exact ⟨_, rfl⟩

theorem refused_runProject (ho : o.logger = .ok logger) (h : Loads w m none loaded) :
    Refused loaded ((runProject passes o m).run w) := by
  have hrefused {project : Project} {e : SourceError} (hp : Project.ofManifest w m = .ok project)
      (hr : (project.run (o.config passes)).run w = ({ failure := some (.load e) }, loaded)) :
      Refused loaded ((runProject passes o m).run w) := by
    obtain ⟨err, hrun⟩ := exists_run_runProject ho hp hr
    rw [hrun]
    exact ⟨rfl, by simp, by simp⟩
  cases h with
  | noProject hp =>
    simp only [runProject, ho]
    rw [Task.run_bind_of_eq (rfl : (get : StateM World World).run loaded = (loaded, loaded)), hp]
    exact ⟨rfl, rfl, rfl⟩
  | noPrelude hp hpreludes => exact hrefused hp (by rw [run_project, hpreludes])
  | @noMain _ e _ _ hp hpreludes hm =>
    exact hrefused (e := e) hp
      (by simp only [run_project, hpreludes, manifest_of_ofManifest hp, hm])

theorem executed_runProject (ho : o.logger = .ok logger)
    (h : Loads w m (some (preludes, main)) loaded) :
    Executed (o.config passes) o.quiet preludes main loaded ((runProject passes o m).run w) := by
  obtain ⟨hnames, -⟩ := h.names
  cases h with
  | @all project _ _ _ hp hpreludes hm =>
    have hlength : m.preludes.length = preludes.length := by
      simpa using (congrArg List.length hnames).symm
    have hscripts : (project.run (o.config passes)).run w =
        (Project.runScripts (o.config passes) main preludes {}, loaded) := by
      simp only [run_project, hpreludes, manifest_of_ofManifest hp, hm]
    obtain ⟨err, hrun⟩ := exists_run_runProject ho hp hscripts
    rw [hrun, hlength]
    refine ⟨?_, results_runScripts, _, rfl, log_runScripts⟩
    rw [forall₂_succeeds_iff, ← failure_runScripts_eq_none_iff]
    dsimp only
    split_ifs with hall
    · exact .inl ⟨rfl, hall⟩
    · exact .inr ⟨rfl, hall⟩

theorem Refused.agree {a b : Output × World} (ha : Refused loaded a) (hb : Refused loaded b) :
    a.1.code = b.1.code ∧ a.1.out = b.1.out :=
  ⟨ha.code.trans hb.code.symm, ha.out.trans hb.out.symm⟩

theorem Executed.agree {a b : Output × World} (ha : Executed cfg quiet preludes main loaded a)
    (hb : Executed cfg quiet preludes main loaded b) :
    a.1.code = b.1.code ∧ a.1.out = b.1.out := by
  refine ⟨?_, ha.out.trans hb.out.symm⟩
  rcases ha.code with ⟨h, hs⟩ | ⟨h, hs⟩ <;> rcases hb.code with ⟨h', hs'⟩ | ⟨h', hs'⟩
  · rw [h, h']
  · exact absurd hs hs'
  · exact absurd hs' hs
  · rw [h, h']

/--
A manifest is run like its main script. Unless everything can be loaded, nothing is run; otherwise
the preludes are run in the order of the manifest and then the main script, each on the variables
that the ones before it left, and the main script is run if and only if no prelude has an error.
-/
theorem agree_runProject_runFile (passes : Nat) (o : Options) (m : Manifest) (w : World) :
    let project := (runProject passes o m).run w
    let file := (runFile passes o (some m) m.mainPath).run w
    project.1.code = file.1.code ∧ project.1.out = file.1.out ∧
      match o.logger with
      | .error _ => project.1.code = 2 ∧ file.1.code = 2
      | .ok _ => ∃ scripts loaded, Loads w m scripts loaded ∧
        match scripts with
        | none => Refused loaded project ∧ Refused loaded file
        | some (preludes, main) =>
          preludes.map Source.name = m.preludes.map (scriptName m) ∧ main.name = m.mainPath ∧
          Executed (o.config passes) o.quiet preludes main loaded project ∧
          Executed (o.config passes) o.quiet preludes main loaded file ∧
          let runs := runsUntilFailure (o.config passes) (preludes ++ [main]) {}
          (runs[preludes.length]?.isSome ↔ ∀ r ∈ runs.take preludes.length, r.error = none) := by
  intro project file
  cases ho : o.logger with
  | error message =>
    have hproject : project = (.failed 2 message, w) := by
      simp only [project, runProject, ho]
      rfl
    have hfile : file = (.failed 2 message, w) := by
      simp only [file, runFile, ho]
      rfl
    rw [hproject, hfile]
    exact ⟨rfl, rfl, rfl, rfl⟩
  | ok logger =>
    obtain ⟨_ | ⟨preludes, main⟩, loaded, h⟩ := exists_loads w m
    · have hproject : Refused loaded project := refused_runProject ho h
      have hfile : Refused loaded file := refused_runFile ho h
      exact ⟨(hproject.agree hfile).1, (hproject.agree hfile).2, _, _, h, hproject, hfile⟩
    · have hproject : Executed (o.config passes) o.quiet preludes main loaded project :=
        executed_runProject ho h
      have hfile : Executed (o.config passes) o.quiet preludes main loaded file :=
        executed_runFile ho h
      obtain ⟨hnames, hmain⟩ := h.names
      exact ⟨(hproject.agree hfile).1, (hproject.agree hfile).2, _, _, h, hnames, hmain, hproject,
        hfile, isSome_runsUntilFailure_iff⟩

end Jobs

end Scriptlet.Command
