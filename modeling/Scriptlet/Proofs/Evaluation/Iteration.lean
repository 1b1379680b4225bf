import Scriptlet.Proofs.Evaluation.Rules

/-!
# Iteration

A loop makes full passes, each of which is the test and then the whole body, until the test does not
hold, or the test or a statement of the body fails. What it leaves is what the last of these actions
leaves. So a loop does what a conditional does that has one pass and then the loop for its block.

## Main definitions

* `Evaluation.Pass`, `Evaluation.Passes`: a full pass, and several of them in a row
* `Evaluation.Iterates`: how a loop ends, pass by pass

## Main statements

* `Evaluation.reaches_iteration_iff`: the action of a loop ends as its passes say
* `Evaluation.iterates_iff`: the passes are a finite sequence and what ends it
* `Evaluation.ends_whileLoop`: a loop is exact iteration
-/

namespace Scriptlet.Evaluation

open Effect

variable {test : Node} {body : List Node} {s t u : State}

/-- One full pass: the test holds, and then all statements of the body succeed. -/
def Pass (test : Node) (body : List Node) (s t : State) : Prop :=
  ∃ v, Tests test s (.ok true) v ∧ Runs body v (.ok ()) t

/-- The states between `n` full passes in a row, the first of which starts from `s`. -/
structure Passes (test : Node) (body : List Node) (s : State) (n : Nat) (states : Nat → State) :
    Prop where
  start : states 0 = s
  pass : ∀ i < n, Pass test body (states i) (states (i + 1))

/-- What can stop a loop after full passes: the test does not hold, or something fails. -/
inductive Stops (test : Node) (body : List Node) :
    State → Except EvalError Unit → State → Prop where
  | exit {s u : State} (ht : Tests test s (.ok false) u) : Stops test body s (.ok ()) u
  | testFailed {s u : State} {e : EvalError} (ht : Tests test s (.error e) u) :
      Stops test body s (.error e) u
  | bodyFailed {s t u : State} {e : EvalError} (ht : Tests test s (.ok true) t)
      (hb : Runs body t (.error e) u) : Stops test body s (.error e) u

/-- How a loop ends: it stops at once, or it ends so after one more pass. -/
inductive Iterates (test : Node) (body : List Node) :
    State → Except EvalError Unit → State → Prop where
  | stop {s u : State} {r : Except EvalError Unit} (h : Stops test body s r u) :
      Iterates test body s r u
  | again {s t u : State} {r : Except EvalError Unit} (hp : Pass test body s t)
      (h : Iterates test body t r u) : Iterates test body s r u

theorem stops_ok_iff : Stops test body s (.ok ()) u ↔ Tests test s (.ok false) u := by
  constructor
  · intro h
    cases h with
    | exit ht => exact ht
  · exact .exit

theorem stops_error_iff {e : EvalError} :
    Stops test body s (.error e) u ↔
      Tests test s (.error e) u ∨ ∃ t, Tests test s (.ok true) t ∧ Runs body t (.error e) u := by
  constructor
  · intro h
    cases h with
    | testFailed ht => exact .inl ht
    | bodyFailed ht hb => exact .inr ⟨_, ht, hb⟩
  · rintro (ht | ⟨t, ht, hb⟩)
    · exact .testFailed ht
    · exact .bodyFailed ht hb

/-! ## The action of a loop -/

/-- The action of a loop whose test and body have `p` passes for their own loops. -/
abbrev iteration (test : Node) (body : List Node) (p passes : Nat) : Effect Unit :=
  Effect.loop (meaning p test).test (block p body) passes

/-- More passes, for the loop and inside of it, do not change how it ends. -/
theorem iteration_mono {p q n m : Nat} {r : Except EvalError Unit} (hpq : p ≤ q) (hnm : n ≤ m)
    (h : iteration test body p n s = .ended r u) : iteration test body q m s = .ended r u := by
  let loop : Node := .whileLoop test body
  have ht : Mimics loop.names loop.targets (meaning p test).test (meaning q test).test :=
    (Node.mimics hpq fun _ hm =>
      Node.usesOnly_of_mem_subtrees (by simp [loop, Node.subtrees, hm])).test
  have hb : Mimics loop.names loop.targets (block p body) (block q body) :=
    mimics_block hpq fun _ hm => Node.usesOnly_of_mem_subtrees (by simp [loop, Node.subtrees, hm])
  exact (ht.loop hb hnm).ended h

theorem iterates_of_iteration {p passes : Nat} {r : Except EvalError Unit}
    (h : iteration test body p passes s = .ended r u) : Iterates test body s r u := by
  induction passes generalizing s with
  | zero => cases r <;> cases h
  | succ passes ih =>
    rw [iteration, loop_succ] at h
    rcases bind_eq_ended_iff.mp h with ⟨e, he, rfl⟩ | ⟨b, t, ht, h⟩
    · exact .stop (.testFailed (reaches_test_iff.mp ⟨p, he⟩))
    · have ht := reaches_test_iff.mp ⟨p, ht⟩
      cases b with
      | false =>
        obtain ⟨rfl, rfl⟩ := reaches_pure_iff.mp (reaches_const_iff.mpr h)
        exact .stop (.exit ht)
      | true =>
        rcases bind_eq_ended_iff.mp h with ⟨e, he, rfl⟩ | ⟨⟨⟩, v, hv, h⟩
        · exact .stop (.bodyFailed ht (reaches_block_iff.mp ⟨p, he⟩))
        · exact .again ⟨t, ht, reaches_block_iff.mp ⟨p, hv⟩⟩ (ih h)

/-- A loop with its first pass written out. -/
def unrolled (test : Node) (body : List Node) (p : Nat) : Effect Unit := do
  if ← (meaning p test).test then (do block p body; iteration test body p (p - 1)) else pure ()

theorem steady_iteration_pred : Steady fun p => iteration test body p (p - 1) := by
  intro p q s r u hpq h
  exact iteration_mono hpq (Nat.sub_le_sub_right hpq 1) h

/-- What follows a test that holds. -/
theorem steady_pass (test : Node) (body : List Node) :
    Steady fun p => (do block p body; iteration test body p (p - 1)) :=
  (steady_block body).bind fun _ => steady_iteration_pred

theorem steady_unrolled : Steady (unrolled test body) :=
  (steady_test test).bind fun b => (steady_pass test body).choice (steady_const (pure ())) b

/-- The first pass may need other numbers of passes for its own loops than the ones after it. -/
theorem reaches_unrolled_iff {r : Except EvalError Unit} :
    Reaches (unrolled test body) s r u ↔
      (∃ e, Tests test s (.error e) u ∧ r = .error e) ∨
      (∃ t, Tests test s (.ok true) t ∧
        ((∃ e, Runs body t (.error e) u ∧ r = .error e) ∨
          ∃ v, Runs body t (.ok ()) v ∧ Reaches (fun p => iteration test body p (p - 1)) v r u)) ∨
      ∃ t, Tests test s (.ok false) t ∧ r = .ok () ∧ u = t := by
  refine (reaches_branch_iff (steady_test test) (steady_pass test body)
    (steady_const (pure ()))).trans ?_
  simp only [reaches_bind_iff (steady_block body) fun _ => steady_iteration_pred, reaches_test_iff,
    reaches_block_iff, reaches_pure_iff, Unique.exists_iff, PUnit.default_eq_unit]

theorem reaches_iteration_of_unrolled {r : Except EvalError Unit}
    (h : Reaches (unrolled test body) s r u) :
    Reaches (fun p => iteration test body p p) s r u := by
  obtain ⟨p, hp⟩ := h
  refine ⟨p + 1, ?_⟩
  change iteration test body (p + 1) (p + 1) s = _
  rw [iteration, loop_succ]
  exact steady_unrolled (Nat.le_succ p) hp

theorem Iterates.reaches {r : Except EvalError Unit} (h : Iterates test body s r u) :
    Reaches (fun p => iteration test body p p) s r u := by
  induction h with
  | stop h =>
    refine reaches_iteration_of_unrolled (reaches_unrolled_iff.mpr ?_)
    cases h with
    | exit ht => exact .inr (.inr ⟨_, ht, rfl, rfl⟩)
    | testFailed ht => exact .inl ⟨_, ht, rfl⟩
    | bodyFailed ht hb => exact .inr (.inl ⟨_, ht, .inl ⟨_, hb, rfl⟩⟩)
  | again hp _ ih =>
    obtain ⟨v, ht, hb⟩ := hp
    obtain ⟨p, ih⟩ := ih
    refine reaches_iteration_of_unrolled (reaches_unrolled_iff.mpr (.inr (.inl ⟨v, ht, .inr ?_⟩)))
    exact ⟨_, hb, p + 1, iteration_mono (Nat.le_succ p) le_rfl ih⟩

/-- The action of a loop ends as its passes say. -/
theorem reaches_iteration_iff {r : Except EvalError Unit} :
    Reaches (fun p => iteration test body p p) s r u ↔ Iterates test body s r u :=
  ⟨fun ⟨_, h⟩ => iterates_of_iteration h, Iterates.reaches⟩

/-! ## The passes of a loop -/

theorem Stops.iterates {n : Nat} {states : Nat → State} {r : Except EvalError Unit}
    (hp : ∀ i < n, Pass test body (states i) (states (i + 1)))
    (h : Stops test body (states n) r u) : Iterates test body (states 0) r u := by
  induction n generalizing states with
  | zero => exact .stop h
  | succ n ih =>
    have hrest : Iterates test body (states 1) r u :=
      @ih (fun i => states (i + 1)) (fun i hi => hp (i + 1) (by omega)) h
    exact .again (hp 0 n.succ_pos) hrest

/-- The states of the passes are those of the passes after the first one, and `s` in front. -/
theorem Pass.passes {n : Nat} {states : Nat → State} (hp : Pass test body s t)
    (h : Passes test body t n states) :
    Passes test body s (n + 1) fun | 0 => s | i + 1 => states i where
  start := rfl
  pass i hi := by
    cases i with
    | zero => simpa [h.start] using hp
    | succ i => exact h.pass i (by omega)

/-- A loop ends after some number of full passes, with what stops it then. -/
theorem iterates_iff {r : Except EvalError Unit} :
    Iterates test body s r u ↔
      ∃ n states, Passes test body s n states ∧ Stops test body (states n) r u := by
  constructor
  · intro h
    induction h with
    | @stop s u r h => exact ⟨0, fun _ => s, ⟨rfl, nofun⟩, h⟩
    | again hp _ ih =>
      obtain ⟨n, states, hs, hstop⟩ := ih
      exact ⟨n + 1, _, hp.passes hs, hstop⟩
  · rintro ⟨n, states, ⟨rfl, hp⟩, hstop⟩
    exact hstop.iterates hp

theorem ends_whileLoop_iff (hc : test ≠ .missing) {r : Except EvalError Value} :
    Ends (.whileLoop test body) s r u ↔
      ∃ r', Iterates test body s r' u ∧ r = r'.map fun _ => .empty := by
  rw [ends_iff_of_wrap (x := fun p => iteration test body p p) fun p => by
    rw [meaning, isMissing_of_ne hc]; rfl]
  simp only [reaches_iteration_iff]

theorem ends_whileLoop_missing_iff {r : Except EvalError Value} :
    Ends (.whileLoop .missing body) s r u ↔ r = .ok .empty ∧ u = s :=
  reaches_pure_iff

/-- A loop stops at once, or it makes one pass and goes on from there. -/
theorem iterates_iff_branch {r : Except EvalError Unit} :
    Iterates test body s r u ↔
      (∃ e, Tests test s (.error e) u ∧ r = .error e) ∨
      (∃ t, Tests test s (.ok true) t ∧ ((∃ e, Runs body t (.error e) u ∧ r = .error e) ∨
        ∃ v, Runs body t (.ok ()) v ∧ Iterates test body v r u)) ∨
      ∃ t, Tests test s (.ok false) t ∧ r = .ok () ∧ u = t := by
  constructor
  · intro h
    cases h with
    | stop h =>
      cases h with
      | exit ht => exact .inr (.inr ⟨_, ht, rfl, rfl⟩)
      | testFailed ht => exact .inl ⟨_, ht, rfl⟩
      | bodyFailed ht hb => exact .inr (.inl ⟨_, ht, .inl ⟨_, hb, rfl⟩⟩)
    | again hp h =>
      obtain ⟨v, ht, hb⟩ := hp
      exact .inr (.inl ⟨v, ht, .inr ⟨_, hb, h⟩⟩)
  · rintro (⟨e, ht, rfl⟩ | ⟨t, ht, ⟨e, hb, rfl⟩ | ⟨v, hb, h⟩⟩ | ⟨t, ht, rfl, rfl⟩)
    · exact .stop (.testFailed ht)
    · exact .stop (.bodyFailed ht hb)
    · exact .again ⟨t, ht, hb⟩ h
    · exact .stop (.exit ht)

theorem runs_whileLoop_iff (hc : test ≠ .missing) {r : Except EvalError Unit} :
    Runs [.whileLoop test body] s r u ↔ Iterates test body s r u := by
  have hback (r : Except EvalError Unit) : (r.map fun _ => Value.empty).map (fun _ => ()) = r := by
    cases r <;> rfl
  rw [runs_singleton_iff]
  constructor
  · rintro ⟨r', h, rfl⟩
    obtain ⟨r, h, rfl⟩ := (ends_whileLoop_iff hc).mp h
    rwa [hback]
  · intro h
    exact ⟨_, (ends_whileLoop_iff hc).mpr ⟨r, h, rfl⟩, (hback r).symm⟩

/-- A pass in front of a loop, and the loop, are the block of a conditional with the same test. -/
theorem ends_whileLoop_iff_ends_ifElse {r : Except EvalError Value} :
    Ends (.whileLoop test body) s r u ↔
      Ends (.ifElse test (body ++ [.whileLoop test body]) .done) s r u := by
  have hdone {t : State} {r : Except EvalError Unit} :
      Reaches (fun p => branches p .done) t r u ↔ r = .ok () ∧ u = t := reaches_pure_iff
  simp only [ends_ifElse_iff, hdone]
  by_cases hc : test = .missing
  · subst hc
    rw [ends_whileLoop_missing_iff]
    simp [tests_missing_iff, Except.map, and_comm]
  · simp only [ends_whileLoop_iff hc, runs_append_iff, runs_whileLoop_iff hc]
    exact exists_congr fun r => and_congr_left fun _ => iterates_iff_branch

/--
A loop ends with no value after some number of full passes, if its test does not hold after them. It
ends with an error if the test, or a statement of the body, fails after some number of full passes.
So it does, from every state, what a conditional does that has the body and then the loop as its
block. Without a test it does nothing.
-/
theorem ends_whileLoop {test : Node} (hc : test ≠ .missing) (body : List Node) (s : State) :
    (∀ v u, Ends (.whileLoop test body) s (.ok v) u ↔ v = .empty ∧
      ∃ n states, Passes test body s n states ∧ Tests test (states n) (.ok false) u) ∧
    (∀ e u, Ends (.whileLoop test body) s (.error e) u ↔
      ∃ n states, Passes test body s n states ∧ (Tests test (states n) (.error e) u ∨
        ∃ t, Tests test (states n) (.ok true) t ∧ Runs body t (.error e) u)) ∧
    (∀ r u, Ends (.whileLoop test body) s r u ↔
      Ends (.ifElse test (body ++ [.whileLoop test body]) .done) s r u) ∧
    ∀ r u, Ends (.whileLoop .missing body) s r u ↔ r = .ok .empty ∧ u = s := by
  refine ⟨fun v u => ?_, fun e u => ?_, fun r u => ends_whileLoop_iff_ends_ifElse,
    fun r u => ends_whileLoop_missing_iff⟩
  · have hok : Ends (.whileLoop test body) s (.ok v) u ↔
        v = .empty ∧ Iterates test body s (.ok ()) u := by
      rw [ends_whileLoop_iff hc]
      constructor
      · rintro ⟨e | ⟨⟩, h, hr⟩
        · cases hr
        · cases hr
          exact ⟨rfl, h⟩
      · rintro ⟨rfl, h⟩
        exact ⟨_, h, rfl⟩
    simp only [hok, iterates_iff, stops_ok_iff]
  · have herror : Ends (.whileLoop test body) s (.error e) u ↔
        Iterates test body s (.error e) u := by
      rw [ends_whileLoop_iff hc]
      constructor
      · rintro ⟨e' | ⟨⟩, h, hr⟩
        · cases hr
          exact h
        · cases hr
      · exact fun h => ⟨_, h, rfl⟩
    simp only [herror, iterates_iff, stops_error_iff]

theorem ends_whileLoop_once :
    let test : Node := .identifier "go"
    let body : List Node := [.assignment (some "go") (.identifier "off")]
    let s : State := ⟨⟨[("go", .boolean true), ("off", .boolean false)]⟩, []⟩
    let u : State := ⟨⟨[("go", .boolean false), ("off", .boolean false)]⟩, []⟩
    test ≠ .missing ∧ Ends (.whileLoop test body) s (.ok .empty) u ∧
      (∃ n states, Passes test body s n states ∧ Tests test (states n) (.ok false) u) ∧
      Ends (.ifElse test (body ++ [.whileLoop test body]) .done) s (.ok .empty) u := by
  intro test body s u
  have hc : test ≠ .missing := nofun
  have h : Ends (.whileLoop test body) s (.ok .empty) u := ⟨2, rfl⟩
  obtain ⟨hok, -, hbranch, -⟩ := ends_whileLoop hc body s
  exact ⟨hc, h, ((hok _ u).mp h).2, (hbranch _ u).mp h⟩

end Scriptlet.Evaluation
