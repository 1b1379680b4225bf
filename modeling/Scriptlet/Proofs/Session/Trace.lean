import Scriptlet.Proofs.Evaluation.Soundness
import Scriptlet.Session

/-!
# The steps of a session

A session is any number of sources that are run one after the other, each under its own policy and
bound. Its steps are the statements that are run, each with the state right after it. What every
statement of a parsed text preserves holds after each step, however many sources there are, and
whether or not they parse and their statements fail.

## Main definitions

* `Session.Step`, `Session.trace`, `Session.history`: the steps of statements and of sources

## Main statements

* `Session.statements_run`, `Session.state_run`: the steps of a source are what running it reports
* `Session.failures_run`: the failures that are counted are those of the steps
* `Session.forall_history`: what one statement preserves holds after each step of a session
* `Session.cause_of_history`: the only errors are undefined variables and values of the wrong kind
* `Session.sound_history`: the variables are sound after each step, and hold what a step reports
-/

namespace Scriptlet

namespace Session

open Evaluation

/-- A statement that was run, and the state right after it. -/
structure Step where
  result : Result
  state : State

/-- The statements that are run, each with the state right after it. -/
def trace (cfg : Config) : List Node → State → List Step
  | [], _ => []
  | n :: ns, s =>
    match evaluate cfg.passes n s with
    | .done v s' => ⟨⟨n, .ok v⟩, s'⟩ :: trace cfg ns s'
    | .failed e s' =>
      match cfg.policy with
      | .stop => [⟨⟨n, .error e⟩, s'⟩]
      | .continue => ⟨⟨n, .error e⟩, s'⟩ :: trace cfg ns s'
    | .unfinished => []

/-- The steps of a source, of which there are none if it does not parse. -/
def steps (cfg : Config) (src : Source) (s : State) : List Step :=
  match Parser.parse cfg.maxDepth.toNat src.text with
  | .error _ => []
  | .ok nodes => trace cfg nodes s

/-- The state that is left of `s` after the given steps. -/
def leave (s : State) (steps : List Step) : State :=
  steps.foldl (fun _ step => step.state) s

/-- The state that is left of `s` after the given sources have been run. -/
def runAll (calls : List (Config × Source)) (s : State) : State :=
  calls.foldl (fun s call => (run call.1 call.2 s).state) s

/-- The steps of sources that are run one after the other. -/
def history : List (Config × Source) → State → List Step
  | [], _ => []
  | (cfg, src) :: calls, s => steps cfg src s ++ history calls (run cfg src s).state

variable {cfg : Config} {src : Source} {s : State} {nodes : List Node}

/-! ## Steps and reports -/

theorem leave_append (s : State) (before after : List Step) :
    leave s (before ++ after) = leave (leave s before) after :=
  List.foldl_append

/-- A report gains the steps of its statements, and one failure for each of them that failed. -/
theorem statements_eq_trace (cfg : Config) (nodes : List Node) (r : Report) (s : State) :
    (statements cfg nodes r s).1 =
        ⟨r.source, r.statements ++ (trace cfg nodes s).map Step.result,
          r.failures + (trace cfg nodes s).countP (·.result.failed)⟩ ∧
      (statements cfg nodes r s).2.2.1 = leave s (trace cfg nodes s) := by
  induction nodes generalizing r s with
  | nil => exact ⟨by simp [statements, trace], rfl⟩
  | cons n ns ih =>
    unfold statements trace
    cases evaluate cfg.passes n s with
    | done v u => simp [ih _ u, leave, Report.add, Result.failed]
    | unfinished => exact ⟨by simp, rfl⟩
    | failed e u =>
      cases cfg.policy with
      | stop => exact ⟨by simp [Report.add, Report.fail, Result.failed], rfl⟩
      | «continue» =>
        simp [ih _ u, leave, Report.add, Report.fail, Result.failed, Nat.add_assoc, Nat.add_comm 1]

theorem statements_run (cfg : Config) (src : Source) (s : State) :
    (run cfg src s).report.statements = (steps cfg src s).map Step.result := by
  unfold run steps
  cases Parser.parse cfg.maxDepth.toNat src.text with
  | error e => rfl
  | ok nodes => simp [statements_eq_trace]

/-- The failures that were counted are the statements that failed. -/
theorem failures_run (cfg : Config) (src : Source) (s : State) :
    (run cfg src s).report.failures = (run cfg src s).report.statements.countP Result.failed := by
  unfold run
  cases Parser.parse cfg.maxDepth.toNat src.text with
  | error e => rfl
  | ok nodes => simp [statements_eq_trace, List.countP_map, Function.comp_def]

theorem state_run (cfg : Config) (src : Source) (s : State) :
    (run cfg src s).state = leave s (steps cfg src s) := by
  unfold run steps
  cases Parser.parse cfg.maxDepth.toNat src.text with
  | error e => rfl
  | ok nodes => exact (statements_eq_trace cfg nodes _ s).2

/-! ## What statements preserve -/

variable {inv : State → Prop} {good : Step → Prop}

/-- The statement `n` keeps the invariant, and its step is `good`, whether or not it fails. -/
def Preserves (inv : State → Prop) (good : Step → Prop) (passes : Nat) (n : Node) : Prop :=
  (evaluate passes n).Ensures inv (fun v s => inv s ∧ good ⟨⟨n, .ok v⟩, s⟩)
    (fun e s => inv s ∧ good ⟨⟨n, .error e⟩, s⟩)

theorem leave_of_forall {steps : List Step} (hs : inv s) (h : ∀ step ∈ steps, inv step.state) :
    inv (leave s steps) := by
  induction steps generalizing s with
  | nil => exact hs
  | cons step steps ih =>
    obtain ⟨hstep, hrest⟩ := List.forall_mem_cons.mp h
    exact ih hstep hrest

theorem forall_trace (h : ∀ n ∈ nodes, Preserves inv good cfg.passes n) (hs : inv s) :
    ∀ step ∈ trace cfg nodes s, inv step.state ∧ good step := by
  induction nodes generalizing s with
  | nil => nofun
  | cons n ns ih =>
    obtain ⟨hn, hns⟩ := List.forall_mem_cons.mp h
    have hstep := hn s hs
    unfold trace
    cases he : evaluate cfg.passes n s with
    | unfinished => nofun
    | done v u =>
      rw [he] at hstep
      exact List.forall_mem_cons.mpr ⟨hstep, ih hns hstep.1⟩
    | failed e u =>
      rw [he] at hstep
      cases cfg.policy with
      | stop => exact List.forall_mem_cons.mpr ⟨hstep, nofun⟩
      | «continue» => exact List.forall_mem_cons.mpr ⟨hstep, ih hns hstep.1⟩

/-- Only trees of a parsed text are run, so only these have to preserve anything. -/
theorem forall_steps (h : ∀ n : Node, n.Proper → Preserves inv good cfg.passes n) (hs : inv s) :
    ∀ step ∈ steps cfg src s, inv step.state ∧ good step := by
  unfold steps
  cases hp : Parser.parse cfg.maxDepth.toNat src.text with
  | error e => nofun
  | ok nodes => exact forall_trace (fun n hn => h n (Parser.proper_of_parse hp n hn)) hs

/-- What one statement preserves holds after each step of a session, and at its end. -/
theorem forall_history (h : ∀ (passes : Nat) (n : Node), n.Proper → Preserves inv good passes n)
    (calls : List (Config × Source)) (hs : inv s) :
    inv (runAll calls s) ∧ ∀ step ∈ history calls s, inv step.state ∧ good step := by
  induction calls generalizing s with
  | nil => exact ⟨hs, nofun⟩
  | cons call calls ih =>
    obtain ⟨cfg, src⟩ := call
    have hsteps : ∀ step ∈ steps cfg src s, inv step.state ∧ good step :=
      forall_steps (h cfg.passes) hs
    have hrun : inv (run cfg src s).state := by
      rw [state_run]
      exact leave_of_forall hs fun step hm => (hsteps step hm).1
    obtain ⟨hend, hrest⟩ := ih hrun
    refine ⟨hend, fun step hm => ?_⟩
    rcases List.mem_append.mp hm with hm | hm
    · exact hsteps step hm
    · exact hrest step hm

/-! ## Errors -/

/-- The errors of a program without holes. -/
def Blames (e : EvalError) : Prop := e.cause = .undefinedVariable ∨ e.cause = .typeMismatch

theorem stable_blames : Stable (fun _ => True) (fun e _ => Blames e) where
  undefined _ _ _ _ := .inl rfl
  mismatch _ _ he _ := .inr he
  define _ _ _ _ _ _ := trivial
  warn _ _ _ _ := trivial

/-- Whatever sources a session runs, its statements fail for one of two reasons only. -/
theorem cause_of_history (calls : List (Config × Source)) {step : Step}
    (h : step ∈ history calls {}) {e : EvalError} (he : step.result.outcome = .error e) :
    e.cause = .undefinedVariable ∨ e.cause = .typeMismatch := by
  have hp (passes : Nat) (n : Node) (hn : n.Proper) : Preserves (fun _ => True)
      (fun step => ∀ e, step.result.outcome = .error e → Blames e) passes n := by
    refine (hn.keeps stable_blames).value.mono ?_ ?_
    · exact fun v s _ => ⟨trivial, nofun⟩
    · rintro e s he
      exact ⟨trivial, fun e' h => by cases h; exact he⟩
  exact ((forall_history hp calls trivial).2 step h).2 e he

theorem cause_of_history_loop :
    ∃ step ∈ history [(⟨.continue, 2, 3⟩, ⟨"first", "a = b \n a = true"⟩),
        (⟨.stop, 0, 3⟩, ⟨"second", "while a \x7b a = \"c\" d = -a \x7d"⟩)] {},
      ∃ e, step.result.outcome = .error e ∧
        (e.cause = .undefinedVariable ∨ e.cause = .typeMismatch) := by
  have first : Parser.parse (2 : Int).toNat "a = b \n a = true" =
      .ok [.assignment (some "a") (.identifier "b"),
        .assignment (some "a") (.literal "true" .true)] := by cbv
  have second : Parser.parse (0 : Int).toNat "while a \x7b a = \"c\" d = -a \x7d" =
      .ok [.whileLoop (.identifier "a") [.assignment (some "a") (.literal "c" .none),
        .assignment (some "d") (.negative (.identifier "a"))]] := by cbv
  have hm : (⟨⟨.whileLoop (.identifier "a") [.assignment (some "a") (.literal "c" .none),
        .assignment (some "d") (.negative (.identifier "a"))], .error (.notNumber "a" (.literal "c"))⟩,
        ⟨⟨[("a", .literal "c")]⟩, []⟩⟩ : Step) ∈
      history [(⟨.continue, 2, 3⟩, ⟨"first", "a = b \n a = true"⟩),
        (⟨.stop, 0, 3⟩, ⟨"second", "while a \x7b a = \"c\" d = -a \x7d"⟩)] {} := by
    simp only [history, state_run, steps, first, second]
    refine List.mem_append_right _ (List.mem_append_left _ ?_)
    exact List.mem_cons_self
  exact ⟨_, hm, _, rfl, cause_of_history _ hm rfl⟩

/-! ## Variables -/

/--
After each step of a session the variables are sound, and if the step reports a binding, they have
it; the variables are sound at the end of the session too.
-/
theorem sound_history (calls : List (Config × Source)) :
    (runAll calls {}).env.Sound ∧ ∀ step ∈ history calls {}, step.state.env.Sound ∧
      ∀ name v, step.result.outcome = .ok (.assignment name v) →
        v.isStorable ∧ step.state.env.get? name = some v := by
  have hp (passes : Nat) (n : Node) (hn : n.Proper) : Preserves (fun s => s.env.Sound)
      (fun step => ∀ name v, step.result.outcome = .ok (.assignment name v) →
        v.isStorable ∧ step.state.env.get? name = some v) passes n := by
    refine ((hn.keeps stable_sound).value.and (ensures_recorded passes n)).mono ?_ ?_
    · rintro v s ⟨hs, hr⟩
      exact ⟨hs, fun name w h => by cases h; exact hr name w rfl⟩
    · rintro e s ⟨hs, -⟩
      exact ⟨hs, nofun⟩
  exact forall_history hp calls Environment.sound_empty

theorem sound_history_nested :
    ∃ step ∈ history [(⟨.stop, 4, 2⟩, ⟨"first", "a = (b = true )\nc = b"⟩),
        (⟨.continue, 0, 2⟩, ⟨"second", ")"⟩)] {},
      step.result.outcome = .ok (.assignment "c" (.boolean true)) ∧ step.state.env.Sound ∧
        (Value.boolean true).isStorable ∧ step.state.env.get? "c" = some (.boolean true) := by
  have first : Parser.parse (4 : Int).toNat "a = (b = true )\nc = b" =
      .ok [.assignment (some "a") (.assignment (some "b") (.literal "true" .true)),
        .assignment (some "c") (.identifier "b")] := by cbv
  have hm : (⟨⟨.assignment (some "c") (.identifier "b"), .ok (.assignment "c" (.boolean true))⟩,
      ⟨⟨[("b", .boolean true), ("c", .boolean true)]⟩,
        [.unassignable (.assignment (some "a") (.assignment (some "b") (.literal "true" .true))) "a"
          (.assignment "b" (.boolean true))]⟩⟩ : Step) ∈
      history [(⟨.stop, 4, 2⟩, ⟨"first", "a = (b = true )\nc = b"⟩),
        (⟨.continue, 0, 2⟩, ⟨"second", ")"⟩)] {} := by
    simp only [history, steps, first]
    exact List.mem_append_left _ (List.mem_cons_of_mem _ List.mem_cons_self)
  obtain ⟨hs, hrecord⟩ := (sound_history _).2 _ hm
  exact ⟨_, hm, rfl, hs, hrecord "c" (.boolean true) rfl⟩

end Session

end Scriptlet
