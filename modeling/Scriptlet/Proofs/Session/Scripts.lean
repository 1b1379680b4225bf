import Scriptlet.Project
import Scriptlet.Proofs.Session.Policies

/-!
# Scripts after each other

Scripts run one after the other on the same variables, until one of them fails. A script has no error
if and only if it parses, all of its statements are run and each of them succeeds; this is so under
both policies, as a script that goes on after a failure has an error in the end.

## Main definitions

* `Session.runsUntilFailure`: scripts that are run one after the other
* `Session.Succeeds`: a script that parses and whose statements all succeed

## Main statements

* `Session.runs_induction`: induction on scripts that are run one after the other
* `Session.error_run_eq_none_iff`: a script has no error if and only if it succeeds
* `Session.forall₂_succeeds_iff`: the same for scripts one after the other
* `Session.isSome_runsUntilFailure_iff`: when the last script is run
-/

namespace Scriptlet.Session

open Evaluation

variable {cfg : Config} {src main : Source} {s : State} {nodes : List Node} {preludes : List Source}

/-- The runs of scripts, each on the variables that the one before it left, until one fails. -/
def runsUntilFailure (cfg : Config) : List Source → State → List Run
  | [], _ => []
  | src :: rest, s =>
    let r := run cfg src s
    r :: if r.error.isNone then runsUntilFailure cfg rest r.state else []

/-- A script parses, all of its statements are run, and none of them fails. -/
def Succeeds (cfg : Config) (src : Source) (r : Run) : Prop :=
  Parser.parse cfg.maxDepth.toNat src.text = .ok (r.report.statements.map Result.node) ∧
    ∀ result ∈ r.report.statements, result.failed = false

/-! ## Scripts that succeed -/

/-- Statements end without an error if all of them are run, and under `stop` none has failed. -/
theorem error_statements_eq_none (r : Report)
    (h : (trace cfg nodes s).map (·.result.node) = nodes)
    (hf : ∀ step ∈ trace cfg nodes s, step.result.failed = false) :
    (statements cfg nodes r s).2.1 = none := by
  induction nodes generalizing r s with
  | nil => rfl
  | cons n ns ih =>
    unfold trace at h hf
    unfold statements
    cases he : evaluate cfg.passes n s with
    | done v u =>
      simp only [he, List.map_cons, List.cons.injEq, true_and, List.forall_mem_cons] at h hf
      simpa using ih _ h hf.2
    | failed e u =>
      exfalso
      cases hp : cfg.policy <;> simp [he, hp, Result.failed] at hf
    | unfinished => simp [he] at h

/-- Statements that end without an error are all run. -/
theorem nodes_of_error_statements {r : Report} (h : (statements cfg nodes r s).2.1 = none) :
    (trace cfg nodes s).map (·.result.node) = nodes := by
  induction nodes generalizing r s with
  | nil => rfl
  | cons n ns ih =>
    unfold statements at h
    unfold trace
    cases he : evaluate cfg.passes n s with
    | done v u =>
      simp only [he] at h
      simp [ih h]
    | failed e u =>
      cases hp : cfg.policy with
      | stop => simp [he, hp] at h
      | «continue» =>
        simp only [he, hp] at h
        simp [ih h]
    | unfinished => simp [he] at h

theorem error_run_eq_none_iff :
    (run cfg src s).error = none ↔ Succeeds cfg src (run cfg src s) := by
  cases hp : Parser.parse cfg.maxDepth.toNat src.text with
  | error e => simp [run, Succeeds, hp]
  | ok nodes =>
    have hnodes : (run cfg src s).report.statements.map Result.node =
        (trace cfg nodes s).map (·.result.node) := by
      simp only [statements_run, steps, hp, List.map_map, Function.comp_def]
    have hmem : (∀ result ∈ (run cfg src s).report.statements, result.failed = false) ↔
        ∀ step ∈ trace cfg nodes s, step.result.failed = false := by
      simp only [statements_run, steps, hp, List.forall_mem_map]
    have hcount : (run cfg src s).report.failures = 0 ↔
        ∀ result ∈ (run cfg src s).report.statements, result.failed = false := by
      simp [failures_run, List.countP_eq_zero]
    rw [Succeeds, hp, hnodes, Except.ok.injEq, error_run hp]
    constructor
    · intro h
      have hnone : (statements cfg nodes { source := src.name } s).2.1 = none := by
        cases he : (statements cfg nodes { source := src.name } s).2.1 <;> simp [he] at h ⊢
      refine ⟨(nodes_of_error_statements hnone).symm, hcount.mp ?_⟩
      simpa [hnone] using h
    · rintro ⟨hrun, hfailed⟩
      rw [error_statements_eq_none _ hrun.symm (hmem.mp hfailed), hcount.mpr hfailed]
      rfl

/-! ## Scripts after each other -/

@[simp] theorem runsUntilFailure_nil : runsUntilFailure cfg [] s = [] := rfl

theorem runsUntilFailure_of_error {e : RunError} (h : (run cfg src s).error = some e)
    (rest : List Source) : runsUntilFailure cfg (src :: rest) s = [run cfg src s] := by
  simp [runsUntilFailure, h]

theorem runsUntilFailure_of_none (h : (run cfg src s).error = none) (rest : List Source) :
    runsUntilFailure cfg (src :: rest) s =
      run cfg src s :: runsUntilFailure cfg rest (run cfg src s).state := by
  simp [runsUntilFailure, h]

/-- Scripts one after the other: none, one that fails before the others, or one before the others. -/
@[elab_as_elim]
theorem runs_induction (cfg : Config) {motive : List Source → State → Prop}
    (nil : ∀ s, motive [] s)
    (failed : ∀ src rest s e, (run cfg src s).error = some e → motive (src :: rest) s)
    (next : ∀ src rest s, (run cfg src s).error = none → motive rest (run cfg src s).state →
      motive (src :: rest) s)
    (sources : List Source) (s : State) : motive sources s := by
  induction sources generalizing s with
  | nil => exact nil s
  | cons src rest ih =>
    cases h : (run cfg src s).error with
    | some e => exact failed src rest s e h
    | none => exact next src rest s h (ih _)

theorem length_runsUntilFailure_le (cfg : Config) (sources : List Source) (s : State) :
    (runsUntilFailure cfg sources s).length ≤ sources.length := by
  induction sources, s using runs_induction cfg with
  | nil s => rfl
  | failed src rest s e h => simp [runsUntilFailure_of_error h]
  | next src rest s h ih => simpa [runsUntilFailure_of_none h] using ih

/-- All scripts succeed if and only if each one is run and none has an error. -/
theorem forall₂_succeeds_iff {sources : List Source} :
    List.Forall₂ (Succeeds cfg) sources (runsUntilFailure cfg sources s) ↔
      ∀ r ∈ runsUntilFailure cfg sources s, r.error = none := by
  induction sources, s using runs_induction cfg with
  | nil s => simp
  | failed src rest s e h =>
    have hfails : ¬ Succeeds cfg src (run cfg src s) := by simp [← error_run_eq_none_iff, h]
    simp [runsUntilFailure_of_error h, h, hfails]
  | next src rest s h ih =>
    have hsucceeds : Succeeds cfg src (run cfg src s) := error_run_eq_none_iff.mp h
    simp [runsUntilFailure_of_none h, h, hsucceeds, ih]

/-- The script after some others is run if and only if none of these has an error. -/
theorem isSome_runsUntilFailure_iff :
    ((runsUntilFailure cfg (preludes ++ [main]) s)[preludes.length]?).isSome ↔
      ∀ r ∈ (runsUntilFailure cfg (preludes ++ [main]) s).take preludes.length, r.error = none := by
  induction preludes, s using runs_induction cfg with
  | nil s => simp [runsUntilFailure]
  | failed p rest s e h => simp [runsUntilFailure_of_error h, h]
  | next p rest s h ih => simpa [runsUntilFailure_of_none h, h] using ih

/-- An entry of the log that announces a prelude. -/
def isAnnouncement (e : Log.Entry) : Bool := e.message == "running prelude"

theorem isAnnouncement_of_mem_statements {r : Report} {e : Log.Entry}
    (h : e ∈ (statements cfg nodes r s).2.2.2) : isAnnouncement e = false := by
  have hevaluate {n : Node} (he : e ∈ evaluateEntry n) : isAnnouncement e = false := by
    unfold evaluateEntry at he
    split at he
    · cases he
    · rw [List.mem_singleton.mp he]
      rfl
  have hwarning {old new : List EvalError} (he : e ∈ warningEntries old new) :
      isAnnouncement e = false := by
    obtain ⟨w, -, rfl⟩ := List.mem_map.mp he
    rfl
  have hfailed {n : Node} {source : String} {error : EvalError} (he : e = failedEntry source n error) :
      isAnnouncement e = false := by
    subst he
    rfl
  induction nodes generalizing r s with
  | nil => cases h
  | cons n ns ih =>
    unfold statements at h
    cases he : evaluate cfg.passes n s with
    | done v u =>
      simp only [he, List.mem_append] at h
      rcases h with (h | h) | h
      exacts [hevaluate h, hwarning h, ih h]
    | failed error u =>
      cases hp : cfg.policy <;> simp only [he, hp, List.mem_append, List.mem_singleton] at h
      · rcases h with (h | h) | h
        exacts [hevaluate h, hwarning h, hfailed h]
      · rcases h with ((h | h) | h) | h
        exacts [hevaluate h, hwarning h, hfailed h, ih h]
    | unfinished =>
      simp only [he] at h
      exact hevaluate h

/-- Running a script announces nothing. -/
theorem filter_log_run (cfg : Config) (src : Source) (s : State) :
    (run cfg src s).log.filter (!isAnnouncement ·) = (run cfg src s).log := by
  rw [List.filter_eq_self]
  intro e he
  rw [Bool.not_eq_true']
  unfold run at he
  cases hp : Parser.parse cfg.maxDepth.toNat src.text with
  | error error => simp [hp] at he
  | ok nodes =>
    simp only [hp, List.mem_cons] at he
    rcases he with rfl | he
    · rfl
    · exact isAnnouncement_of_mem_statements he

end Scriptlet.Session
