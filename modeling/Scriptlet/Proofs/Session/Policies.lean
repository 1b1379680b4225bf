import Scriptlet.Proofs.Session.Chunks

/-!
# The two policies

A source can be run in three ways: to its end whatever fails, up to its first failing statement, and
as a program that has only its last value to give. A failing statement leaves its changes behind, so
all three go through the same states for as long as nothing has failed, and the second and the third
end in the state that the first failure leaves.

## Main definitions

* `Session.Result.error?`, `Session.lastValue`: the error of a result, and the last value of several
* `Session.upToFailure`: a list up to its first element that failed
* `Session.Finishes`: statements that all finish, whether or not they fail

## Main statements

* `Session.Finishes.trace_stop`: the steps under `stop` are those under `continue`, cut off
* `Session.Finishes.program_go_of_failed`, `Session.Finishes.program_go_of_done`: a program ends as its
  statements do under `stop`
* `Session.run_stop_of_run_continue`: the three runs of one source
-/

namespace Scriptlet.Session

open Evaluation

/-- The error of a statement that failed. -/
def Result.error? (r : Result) : Option EvalError :=
  match r.outcome with
  | .ok _ => none
  | .error e => some e

/-- The value of a statement that did not fail. -/
def Result.value? (r : Result) : Option Value :=
  match r.outcome with
  | .ok v => some v
  | .error _ => none

/-- The value of the last statement, which is empty if there is none. -/
def lastValue (results : List Result) : Value := (results.getLast?.bind Result.value?).getD .empty

/-- The elements up to the first one with `failed`, which is the last one if there is one. -/
def upToFailure {α : Type} (failed : α → Bool) (l : List α) : List α :=
  l.takeWhile (!failed ·) ++ (l.find? failed).toList

/-- The given statements all finish, and these are their steps. -/
inductive Finishes (passes : Nat) : List Node → State → List Step → Prop where
  | nil {s} : Finishes passes [] s []
  | done {n v ns s u steps} (h : evaluate passes n s = .done v u) (hns : Finishes passes ns u steps) :
      Finishes passes (n :: ns) s (⟨⟨n, .ok v⟩, u⟩ :: steps)
  | failed {n e ns s u steps} (h : evaluate passes n s = .failed e u)
      (hns : Finishes passes ns u steps) :
      Finishes passes (n :: ns) s (⟨⟨n, .error e⟩, u⟩ :: steps)

variable {cfg : Config} {passes : Nat} {nodes : List Node} {s : State} {steps : List Step}

/-! ## Lists up to a failure -/

section UpToFailure

variable {α β : Type} {failed : α → Bool} {a : α} {l : List α}

theorem upToFailure_cons_of_failed (h : failed a) : upToFailure failed (a :: l) = [a] := by
  simp [upToFailure, h]

theorem upToFailure_cons_of_not (h : failed a = false) :
    upToFailure failed (a :: l) = a :: upToFailure failed l := by
  simp [upToFailure, h]

theorem map_upToFailure (f : α → β) (p : β → Bool) (l : List α) :
    (upToFailure (fun a => p (f a)) l).map f = upToFailure p (l.map f) := by
  simp only [upToFailure, List.map_append, List.takeWhile_map, List.find?_map, Function.comp_def]
  cases l.find? fun a => p (f a) <;> rfl

theorem upToFailure_of_countP (h : l.countP failed = 0) : upToFailure failed l = l := by
  induction l with
  | nil => rfl
  | cons a l ih =>
    have ha : failed a = false := by simpa using List.countP_eq_zero.mp h a List.mem_cons_self
    rw [List.countP_cons_of_neg (by simp [ha])] at h
    rw [upToFailure_cons_of_not ha, ih h]

/-- Only the last element can have failed, so there is at most one such element. -/
theorem countP_upToFailure : (upToFailure failed l).countP failed = min 1 (l.countP failed) := by
  induction l with
  | nil => rfl
  | cons a l ih =>
    cases h : failed a with
    | true =>
      rw [upToFailure_cons_of_failed h, List.countP_cons_of_pos h]
      simp [h]
    | false =>
      have h' : ¬ failed a = true := by simp [h]
      rw [upToFailure_cons_of_not h, List.countP_cons_of_neg h', List.countP_cons_of_neg h', ih]

end UpToFailure

/-! ## Statements that finish -/

/-- If there are as many steps under the policy `continue` as statements, then all of them finish. -/
theorem finishes_trace (hp : cfg.policy = .continue)
    (hf : (trace cfg nodes s).length = nodes.length) :
    Finishes cfg.passes nodes s (trace cfg nodes s) := by
  induction nodes generalizing s with
  | nil => exact .nil
  | cons n ns ih =>
    unfold trace at hf ⊢
    cases he : evaluate cfg.passes n s with
    | done v u =>
      simp only [he, List.length_cons, Nat.add_right_cancel_iff] at hf
      exact .done he (ih hf)
    | failed e u =>
      simp only [he, hp, List.length_cons, Nat.add_right_cancel_iff] at hf
      simp only [hp]
      exact .failed he (ih hf)
    | unfinished => simp [he] at hf

namespace Finishes

theorem nodes_eq (h : Finishes passes nodes s steps) : steps.map (·.result.node) = nodes := by
  induction h with
  | nil => rfl
  | done _ _ ih | failed _ _ ih => simp [ih]

/-- Nothing ends the statements early under the policy `continue`. -/
theorem error_continue (h : Finishes cfg.passes nodes s steps) (hp : cfg.policy = .continue)
    (r : Report) : (statements cfg nodes r s).2.1 = none := by
  induction h generalizing r with
  | nil => rfl
  | done he _ ih | failed he _ ih => simp [statements, he, hp, ih]

theorem trace_continue (h : Finishes cfg.passes nodes s steps) (hp : cfg.policy = .continue) :
    trace cfg nodes s = steps := by
  induction h with
  | nil => rfl
  | done he _ ih | failed he _ ih => simp [trace, he, hp, ih]

/-- The steps under the policy `stop` are cut off after the first one that failed. -/
theorem trace_stop (h : Finishes cfg.passes nodes s steps) (hp : cfg.policy = .stop) :
    trace cfg nodes s = upToFailure (·.result.failed) steps := by
  induction h with
  | nil => rfl
  | done he _ ih =>
    rw [upToFailure_cons_of_not rfl, ← ih]
    simp [trace, he]
  | failed he =>
    rw [upToFailure_cons_of_failed rfl]
    simp [trace, he, hp]

theorem error_stop (h : Finishes cfg.passes nodes s steps) (hp : cfg.policy = .stop)
    (r : Report) : (statements cfg nodes r s).2.1 =
      (steps.findSome? (·.result.error?)).map (.statement r.source) := by
  induction h generalizing r with
  | nil => rfl
  | done he _ ih => simp [statements, he, ih, Result.error?, Report.add]
  | failed he => simp [statements, he, hp, Result.error?, Report.add, Report.fail]

/-- A program fails as its first failing statement does, in the state which that one leaves. -/
theorem program_go_of_failed (h : Finishes passes nodes s steps) {e : EvalError}
    (he : steps.findSome? (·.result.error?) = some e) (last : Value) :
    program.go passes last nodes s =
      .failed e (leave s (upToFailure (·.result.failed) steps)) := by
  induction h generalizing last with
  | nil => cases he
  | @done n v ns s u steps hn _ ih =>
    change Effect.bind (evaluate passes n) (fun v => program.go passes v ns) s = _
    rw [upToFailure_cons_of_not rfl]
    simpa [Effect.bind, hn, leave] using ih he v
  | @failed n e' ns s u steps hn =>
    change Effect.bind (evaluate passes n) (fun v => program.go passes v ns) s = _
    obtain rfl : e' = e := by simpa [Result.error?] using he
    rw [upToFailure_cons_of_failed rfl]
    simp [Effect.bind, hn, leave]

/-- The last of some statements has a value if none of them failed. -/
theorem exists_lastValue (hn : steps ≠ []) (hf : steps.findSome? (·.result.error?) = none) :
    ∃ v, steps.getLast?.bind (·.result.value?) = some v := by
  have hlast := List.findSome?_eq_none_iff.mp hf _ (List.getLast_mem hn)
  rw [List.getLast?_eq_some_getLast hn, Option.bind_some]
  cases ho : (steps.getLast hn).result.outcome with
  | ok v => exact ⟨v, by simp [Result.value?, ho]⟩
  | error e => simp [Result.error?, ho] at hlast

/-- A program without a failing statement has the last value, or `last` if it has no statement. -/
theorem program_go_of_done (h : Finishes passes nodes s steps)
    (hf : steps.findSome? (·.result.error?) = none) (last : Value) :
    program.go passes last nodes s =
      .done ((steps.getLast?.bind (·.result.value?)).getD last) (leave s steps) := by
  induction h generalizing last with
  | nil => rfl
  | failed => cases hf
  | @done n v ns s u steps hn hns ih =>
    change Effect.bind (evaluate passes n) (fun v => program.go passes v ns) s = _
    simp only [Effect.bind, hn, ih hf v]
    by_cases hs : steps = []
    · subst hs
      rfl
    · obtain ⟨w, hw⟩ := exists_lastValue hs hf
      have hlast : (⟨⟨n, .ok v⟩, u⟩ :: steps : List Step).getLast? = steps.getLast? := by
        rw [List.getLast?_cons, List.getLast?_eq_some_getLast hs]
        rfl
      simp [hlast, hw, leave]

end Finishes

/-! ## The runs of a source -/

theorem findSome?_error?_eq_none_iff {results : List Result} :
    results.findSome? Result.error? = none ↔ results.countP Result.failed = 0 := by
  rw [List.findSome?_eq_none_iff, List.countP_eq_zero]
  refine forall₂_congr fun r _ => ?_
  cases ho : r.outcome <;> simp [Result.error?, Result.failed, ho]

theorem lastValue_map_result (steps : List Step) :
    lastValue (steps.map Step.result) = (steps.getLast?.bind (·.result.value?)).getD .empty := by
  rw [lastValue, List.getLast?_map, Option.bind_map]
  rfl

section Runs

variable {src : Source} (hp : Parser.parse cfg.maxDepth.toNat src.text = .ok nodes)
include hp

/-- A source fails as its statements do, or else because some of them have failed. -/
theorem error_run : (run cfg src s).error =
    (statements cfg nodes { source := src.name } s).2.1.orElse fun _ =>
      if (run cfg src s).report.failures > 0 then
        some (.statements src.name (run cfg src s).report.failures) else none := by
  simp [run, hp]

theorem Finishes.report_continue (h : Finishes cfg.passes nodes s steps)
    (hc : cfg.policy = .continue) :
    (run cfg src s).report.statements = steps.map Step.result := by
  simp only [statements_run, Session.steps, hp, h.trace_continue hc]

theorem Finishes.report_stop (h : Finishes cfg.passes nodes s steps) (hc : cfg.policy = .stop) :
    (run cfg src s).report.statements = upToFailure Result.failed (steps.map Step.result) := by
  simp only [statements_run, Session.steps, hp, h.trace_stop hc, map_upToFailure]

theorem Finishes.state_stop (h : Finishes cfg.passes nodes s steps) (hc : cfg.policy = .stop) :
    (run cfg src s).state = leave s (upToFailure (·.result.failed) steps) := by
  simp only [state_run, Session.steps, hp, h.trace_stop hc]

end Runs

/--
A source that does not parse runs nothing under either policy. Otherwise the policy `continue` gives
a result for each statement and fails at the end if one of them did; the policy `stop` gives the
results up to the first failing one and fails with its error. As a program the source ends in the
state that it leaves under `stop`, with the same error or with the value of the last statement.
-/
theorem run_stop_of_run_continue (maxDepth : Int) (passes : Nat) (src : Source) (s : State)
    (hf : (run ⟨.continue, maxDepth, passes⟩ src s).error ≠ some (.unfinished src.name)) :
    let all := run ⟨.continue, maxDepth, passes⟩ src s
    let cut := run ⟨.stop, maxDepth, passes⟩ src s
    match Parser.parse maxDepth.toNat src.text with
    | .error e => ∀ r ∈ [all, cut], r.report.statements = [] ∧ r.report.failures = 0 ∧
        r.error = some (.parse src.name e) ∧ r.state = s
    | .ok nodes =>
      all.report.statements.map Result.node = nodes ∧
      all.report.failures = (all.report.statements.filter Result.failed).length ∧
      all.error = (if all.report.failures > 0 then
        some (.statements src.name all.report.failures) else none) ∧
      cut.report.statements = all.report.statements.takeWhile (!·.failed) ++
        (all.report.statements.find? Result.failed).toList ∧
      cut.report.failures = min 1 all.report.failures ∧
      match all.report.statements.findSome? Result.error? with
      | some e => cut.error = some (.statement src.name e) ∧
          program passes nodes s = .failed e cut.state
      | none => cut.error = none ∧
          program passes nodes s = .done (lastValue cut.report.statements) cut.state := by
  intro all cut
  cases hp : Parser.parse maxDepth.toNat src.text with
  | error e => simp [all, cut, run, hp]
  | ok nodes =>
    obtain ⟨done, hdone⟩ : ∃ done, Finishes passes nodes s done :=
      ⟨_, finishes_trace rfl (length_trace_of_run rfl hp hf)⟩
    have hall : all.report.statements = done.map Step.result :=
      hdone.report_continue hp rfl
    have hcut : cut.report.statements = upToFailure Result.failed (done.map Step.result) :=
      hdone.report_stop hp rfl
    have hstate : cut.state = leave s (upToFailure (·.result.failed) done) :=
      hdone.state_stop hp rfl
    have hfailures : cut.report.failures = min 1 all.report.failures := by
      rw [failures_run, failures_run, hcut, hall, countP_upToFailure]
    have hstop : cut.error = ((done.findSome? (·.result.error?)).map (.statement src.name)).orElse
        fun _ => if cut.report.failures > 0 then
          some (.statements src.name cut.report.failures) else none := by
      rw [error_run hp, hdone.error_stop rfl]
    have hfirst : all.report.statements.findSome? Result.error? =
        done.findSome? (·.result.error?) := by
      rw [hall, List.findSome?_map]
      rfl
    refine ⟨?_, (failures_run ..).trans List.countP_eq_length_filter, ?_, hall ▸ hcut, hfailures, ?_⟩
    · rw [hall, List.map_map]
      exact hdone.nodes_eq
    · rw [error_run hp, hdone.error_continue rfl]
      rfl
    cases he : done.findSome? (·.result.error?) with
    | some e =>
      rw [hfirst, he, hstop, he, hstate]
      exact ⟨rfl, hdone.program_go_of_failed he .empty⟩
    | none =>
      have hnone : (done.map Step.result).countP Result.failed = 0 := by
        rw [← findSome?_error?_eq_none_iff, ← hall, hfirst, he]
      have hwhole : upToFailure (·.result.failed) done = done :=
        upToFailure_of_countP (by simpa [List.countP_map, Function.comp_def] using hnone)
      have hzero : all.report.failures = 0 := by rw [failures_run, hall, hnone]
      rw [hfirst, he, hstop, he, hfailures, hzero, hstate, hwhole, hcut, upToFailure_of_countP hnone,
        lastValue_map_result]
      exact ⟨by simp, hdone.program_go_of_done he .empty⟩

theorem run_stop_of_run_continue_undefined :
    let src : Source := ⟨"main", "a = true\nb = c\nd = a\ne"⟩
    let nodes : List Node := [.assignment (some "a") (.literal "true" .true),
      .assignment (some "b") (.identifier "c"), .assignment (some "d") (.identifier "a"),
      .identifier "e"]
    let all := run ⟨.continue, 2, 1⟩ src {}
    let cut := run ⟨.stop, 2, 1⟩ src {}
    all.error = some (.statements "main" 2) ∧ cut.report.failures = min 1 2 ∧
      cut.report.statements = all.report.statements.takeWhile (!·.failed) ++
        (all.report.statements.find? Result.failed).toList ∧
      cut.error = some (.statement "main" (.undefined "c")) ∧
      program 1 nodes {} = .failed (.undefined "c") cut.state := by
  intro src nodes all cut
  have hp : Parser.parse (2 : Int).toNat src.text = .ok nodes := by cbv
  have hfailures : all.report.failures = 2 := by
    simp only [all, run, hp]
    rfl
  have hfirst : all.report.statements.findSome? Result.error? = some (.undefined "c") := by
    simp only [all, run, hp]
    rfl
  have herror : all.error = some (.statements "main" 2) := by
    simp only [all, run, hp]
    rfl
  have h := run_stop_of_run_continue 2 1 src {} (by simp [all, herror])
  simp only [hp] at h
  obtain ⟨-, -, -, hcut, hmin, hrest⟩ := h
  change match all.report.statements.findSome? Result.error? with
    | some e => _
    | none => _ at hrest
  rw [hfirst] at hrest
  exact ⟨herror, hfailures ▸ hmin, hcut, hrest⟩

end Scriptlet.Session
