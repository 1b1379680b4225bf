import Scriptlet.Proofs.Evaluation.Rules

/-!
# Branching

A conditional tests the guards of its branches in order, each in the state that the ones before it
left, up to the first guard that holds or fails, or the first branch that has none. It runs the block
of that branch and nothing after it. The choice is also described step by step, by a machine that
knows the branch at hand and the links after it; the machine comes to an end whenever what it tests
and runs does, and both descriptions give what the conditional does.

## Main definitions

* `Evaluation.Branch`, `Evaluation.Conditional`: branches, and the two nodes that have them
* `Evaluation.Selects`: what the first matching branch does
* `Evaluation.Phase`, `Evaluation.Transition`: the machine that looks for that branch

## Main statements

* `Evaluation.reaches_branches_iff`: the action of a chain is that of its first matching branch
* `Evaluation.Transition.reached`: what a step of the machine preserves
* `Evaluation.Transitions.left_le`: a step brings the machine closer to its end
* `Evaluation.ends_conditional`: a conditional, the machine and the first matching branch agree
-/

namespace Scriptlet

namespace Evaluation

/-- A block, behind a guard or without one. -/
structure Branch where
  guard : Option Node
  body : List Node

/-- The branch of a link; a link without a test has no guard. -/
def Branch.ofLink (test : Node) (body : List Node) : Branch where
  guard := if test.isMissing then none else some test
  body := body

theorem Branch.ofLink_of_ne {test : Node} (h : test ≠ .missing) (body : List Node) :
    ofLink test body = ⟨some test, body⟩ := by
  simp [ofLink, h]

end Evaluation

/-- The branches of a chain, of which any may be without a guard. -/
def Chain.toBranches : Chain → List Evaluation.Branch
  | .done => []
  | .link test body rest => .ofLink test body :: rest.toBranches

namespace Evaluation

open Effect

variable {test : Node} {body : List Node} {bs : List Branch} {s t u : State}
  {r : Except EvalError Unit}

/-! ## The first matching branch -/

/-- The branch is chosen, and testing its guard leaves the second state. -/
inductive Branch.Opens : Branch → State → State → Prop where
  | unguarded {body : List Node} {s : State} : Opens ⟨none, body⟩ s s
  | guarded {test : Node} {body : List Node} {s t : State} (h : Tests test s (.ok true) t) :
      Opens ⟨some test, body⟩ s t

/-- All the branches have guards; tested in order, none of them holds. -/
inductive Declined : List Branch → State → State → Prop where
  | nil {s : State} : Declined [] s s
  | cons {test : Node} {body : List Node} {bs : List Branch} {s t u : State}
      (h : Tests test s (.ok false) t) (hr : Declined bs t u) :
      Declined (⟨some test, body⟩ :: bs) s u

/--
What a list of branches does: the first one that opens runs its block, a guard in front of it that
fails is the end, and without either nothing is run.
-/
inductive Selects (branches : List Branch) (s : State) : Except EvalError Unit → State → Prop where
  | taken {earlier later : List Branch} {b : Branch} {t v u : State} {r : Except EvalError Unit}
      (hb : branches = earlier ++ b :: later) (hd : Declined earlier s t) (ho : b.Opens t v)
      (hr : Runs b.body v r u) : Selects branches s r u
  | failed {earlier later : List Branch} {test : Node} {body : List Node} {t u : State}
      {e : EvalError} (hb : branches = earlier ++ ⟨some test, body⟩ :: later)
      (hd : Declined earlier s t) (ht : Tests test t (.error e) u) : Selects branches s (.error e) u
  | none {u : State} (hd : Declined branches s u) : Selects branches s (.ok ()) u

theorem Declined.snoc (hd : Declined bs s t) (h : Tests test t (.ok false) u) :
    Declined (bs ++ [⟨some test, body⟩]) s u := by
  induction hd with
  | nil => exact .cons h .nil
  | cons hg _ ih => exact .cons hg (ih h)

/-- The first branch of all is chosen. -/
theorem Selects.head {b : Branch} {v : State} (ho : b.Opens s v) (hr : Runs b.body v r u) :
    Selects (b :: bs) s r u :=
  .taken (List.nil_append _).symm .nil ho hr

/-- The first guard of all fails. -/
theorem Selects.head_failed {e : EvalError} (ht : Tests test s (.error e) u) :
    Selects (⟨some test, body⟩ :: bs) s (.error e) u :=
  .failed (List.nil_append _).symm .nil ht

theorem selects_nil_iff : Selects [] s r u ↔ r = .ok () ∧ u = s := by
  constructor
  · intro h
    cases h with
    | taken hb | failed hb => simp at hb
    | none hd =>
      cases hd
      exact ⟨rfl, rfl⟩
  · rintro ⟨rfl, rfl⟩
    exact .none .nil

theorem selects_unguarded_iff : Selects (⟨none, body⟩ :: bs) s r u ↔ Runs body s r u := by
  constructor
  · intro h
    cases h with
    | none hd => cases hd
    | taken hb hd ho hr =>
      cases hd with
      | nil =>
        cases hb
        cases ho
        exact hr
      | cons => simp at hb
    | failed hb hd =>
      cases hd with
      | nil => simp at hb
      | cons => simp at hb
  · exact .head .unguarded

theorem Selects.cons (ht : Tests test s (.ok false) t) (h : Selects bs t r u) :
    Selects (⟨some test, body⟩ :: bs) s r u := by
  cases h with
  | taken hb hd ho hr => exact .taken (by rw [hb, List.cons_append]) (.cons ht hd) ho hr
  | failed hb hd he => exact .failed (by rw [hb, List.cons_append]) (.cons ht hd) he
  | none hd => exact .none (.cons ht hd)

theorem selects_guarded_iff :
    Selects (⟨some test, body⟩ :: bs) s r u ↔
      (∃ e, Tests test s (.error e) u ∧ r = .error e) ∨
        (∃ t, Tests test s (.ok true) t ∧ Runs body t r u) ∨
          ∃ t, Tests test s (.ok false) t ∧ Selects bs t r u := by
  constructor
  · intro h
    cases h with
    | taken hb hd ho hr =>
      cases hd with
      | nil =>
        cases hb
        cases ho with
        | guarded ht => exact .inr (.inl ⟨_, ht, hr⟩)
      | cons ht hd =>
        cases hb
        exact .inr (.inr ⟨_, ht, .taken rfl hd ho hr⟩)
    | failed hb hd he =>
      cases hd with
      | nil =>
        cases hb
        exact .inl ⟨_, he, rfl⟩
      | cons ht hd =>
        cases hb
        exact .inr (.inr ⟨_, ht, .failed rfl hd he⟩)
    | none hd =>
      cases hd with
      | cons ht hd => exact .inr (.inr ⟨_, ht, .none hd⟩)
  · rintro (⟨e, he, rfl⟩ | ⟨t, ht, hr⟩ | ⟨t, ht, h⟩)
    · exact .head_failed he
    · exact .head (.guarded ht) hr
    · exact h.cons ht

/-! ## The action of a conditional -/

/-- The action of a chain is that of its first matching branch. -/
theorem reaches_branches_iff : ∀ {rest : Chain} {s : State},
    Reaches (fun p => branches p rest) s r u ↔ Selects rest.toBranches s r u
  | .done, _ => reaches_pure_iff.trans selects_nil_iff.symm
  | .link test body rest, s => by
    rw [Chain.toBranches]
    by_cases hm : test = .missing
    · subst hm
      exact reaches_block_iff.trans selects_unguarded_iff.symm
    · simp only [branches, isMissing_of_ne hm, Branch.ofLink_of_ne hm, selects_guarded_iff]
      refine (reaches_branch_iff (steady_test test) (steady_block body)
        (steady_branches rest)).trans ?_
      simp only [reaches_test_iff, reaches_block_iff, reaches_branches_iff]

/-- The nodes that have branches. -/
inductive Conditional where
  | ifElse (test : Node) (body : List Node) (rest : Chain)
  /-- A chain that stands alone. -/
  | elseLink (test : Node) (body : List Node) (rest : Chain)

namespace Conditional

def node : Conditional → Node
  | ifElse test body rest => .ifElse test body rest
  | elseLink test body rest => .elseLink test body rest

/-- The first branch of an `if` has a guard also where its test is missing, and that does not hold. -/
def branches : Conditional → List Branch
  | ifElse test body rest => ⟨some test, body⟩ :: rest.toBranches
  | elseLink test body rest => .ofLink test body :: rest.toBranches

end Conditional

variable {c : Conditional}

theorem ends_conditional_iff_selects {r : Except EvalError Value} :
    Ends c.node s r u ↔
      ∃ r', Selects c.branches s r' u ∧ r = r'.map fun _ => .empty := by
  cases c with
  | ifElse test body rest =>
    simp only [Conditional.node, Conditional.branches, ends_ifElse_iff, selects_guarded_iff,
      reaches_branches_iff]
  | elseLink test body rest =>
    have hx (p : Nat) : (meaning p (.elseLink test body rest)).value =
        do return (fun _ => .empty) (← branches p (.link test body rest)) := by
      rw [meaning, branches]
      rfl
    simp only [Conditional.node, ends_iff_of_wrap hx, reaches_branches_iff]
    rfl

/-! ## The machine -/

/-- Where the search for a branch stands. -/
inductive Phase where
  /-- The guard of a branch is tested; `next` is the chain after it. -/
  | testing (test : Node) (body : List Node) (next : Chain)
  /-- A block is run. -/
  | running (body : List Node)
  /-- A link takes the place of the branch before it. -/
  | advancing (test : Node) (body : List Node) (next : Chain)
  | ended (result : Except EvalError Unit)

/-- What the machine does next, and the state that this leaves. -/
inductive Transition : Phase × State → Phase × State → Prop where
  | holds {test : Node} {body : List Node} {next : Chain} {s t : State}
      (h : Tests test s (.ok true) t) : Transition (.testing test body next, s) (.running body, t)
  | declined {test test' : Node} {body body' : List Node} {next : Chain} {s t : State}
      (h : Tests test s (.ok false) t) :
      Transition (.testing test body (.link test' body' next), s) (.advancing test' body' next, t)
  | exhausted {test : Node} {body : List Node} {s t : State} (h : Tests test s (.ok false) t) :
      Transition (.testing test body .done, s) (.ended (.ok ()), t)
  | failed {test : Node} {body : List Node} {next : Chain} {s t : State} {e : EvalError}
      (h : Tests test s (.error e) t) :
      Transition (.testing test body next, s) (.ended (.error e), t)
  | ran {body : List Node} {s t : State} {r : Except EvalError Unit} (h : Runs body s r t) :
      Transition (.running body, s) (.ended r, t)
  | plain {body : List Node} {next : Chain} {s : State} :
      Transition (.advancing .missing body next, s) (.running body, s)
  | guarded {test : Node} {body : List Node} {next : Chain} {s : State} (hm : test ≠ .missing) :
      Transition (.advancing test body next, s) (.testing test body next, s)

/-- So many transitions in a row. -/
inductive Transitions : Phase × State → Nat → Phase × State → Prop where
  | refl (p : Phase × State) : Transitions p 0 p
  | head {p q q' : Phase × State} {n : Nat} (h : Transition p q) (hs : Transitions q n q') :
      Transitions p (n + 1) q'

/-- Where the machine starts for a conditional. -/
def Conditional.entry : Conditional → Phase
  | ifElse test body rest => .testing test body rest
  | elseLink test body rest => if test.isMissing then .running body else .testing test body rest

variable {p q q' : Phase × State} {n m : Nat}

theorem Transitions.trans (h : Transitions p n q) (h' : Transitions q m q') :
    Transitions p (n + m) q' := by
  induction h with
  | refl => rwa [Nat.zero_add]
  | head h _ ih =>
    rw [Nat.add_right_comm]
    exact .head h (ih h')

theorem Transition.unique (h : Transition p q) (h' : Transition p q') : q = q' := by
  cases h with
  | holds h =>
    cases h' with
    | holds h' =>
      obtain ⟨-, rfl⟩ := h.unique h'
      rfl
    | declined h' | exhausted h' | failed h' => cases (h.unique h').1
  | declined h =>
    cases h' with
    | declined h' =>
      obtain ⟨-, rfl⟩ := h.unique h'
      rfl
    | holds h' | failed h' => cases (h.unique h').1
  | exhausted h =>
    cases h' with
    | exhausted h' =>
      obtain ⟨-, rfl⟩ := h.unique h'
      rfl
    | holds h' | failed h' => cases (h.unique h').1
  | failed h =>
    cases h' with
    | failed h' =>
      obtain ⟨he, rfl⟩ := h.unique h'
      cases he
      rfl
    | holds h' | declined h' | exhausted h' => cases (h.unique h').1
  | ran h =>
    cases h' with
    | ran h' =>
      obtain ⟨rfl, rfl⟩ := h.unique h'
      rfl
  | plain =>
    cases h' with
    | plain => rfl
    | guarded hm => exact absurd rfl hm
  | guarded hm =>
    cases h' with
    | plain => exact absurd rfl hm
    | guarded => rfl

/-- The machine has no choice, so that a run is empty or starts with the transition that there is. -/
theorem Transitions.eq_or_of_transition (h : Transitions p n q) (hp : Transition p q') :
    q = p ∨ ∃ m, Transitions q' m q := by
  cases h with
  | refl => exact .inl rfl
  | head h hs =>
    cases h.unique hp
    exact .inr ⟨_, hs⟩

/-! ### What the machine gets to -/

/--
What is known of a phase that the machine gets to, in the state `t`, when it looks for one of the
branches from the state `s`. Only a guard with nothing but declined branches in front of it is
tested, and only the block of the first branch that opens is run.
-/
def Phase.Reached (branches : List Branch) (s : State) : Phase → State → Prop
  | .testing test body next, t =>
    ∃ earlier, branches = earlier ++ ⟨some test, body⟩ :: next.toBranches ∧ Declined earlier s t
  | .running body, t => ∃ earlier b later v,
    branches = earlier ++ b :: later ∧ Declined earlier s v ∧ b.Opens v t ∧ b.body = body
  | .advancing test body next, t =>
    ∃ earlier, branches = earlier ++ .ofLink test body :: next.toBranches ∧ Declined earlier s t
  | .ended r, u => Selects branches s r u

/-- What a step of the machine preserves. -/
theorem Transition.reached (h : Transition p q) (hp : p.1.Reached bs s p.2) :
    q.1.Reached bs s q.2 := by
  cases h with
  | holds h =>
    obtain ⟨earlier, hb, hd⟩ := hp
    exact ⟨earlier, _, _, _, hb, hd, .guarded h, rfl⟩
  | @declined test _ body _ _ _ _ h =>
    -- The branch at hand joins the declined ones.
    obtain ⟨earlier, hb, hd⟩ := hp
    refine ⟨earlier ++ [⟨some test, body⟩], ?_, hd.snoc h⟩
    rw [hb, Chain.toBranches, List.append_assoc]
    rfl
  | @exhausted test body _ _ h =>
    obtain ⟨earlier, hb, hd⟩ := hp
    refine .none ?_
    rw [hb]
    exact hd.snoc h
  | failed h =>
    obtain ⟨earlier, hb, hd⟩ := hp
    exact .failed hb hd h
  | ran h =>
    obtain ⟨earlier, b, later, v, hb, hd, ho, rfl⟩ := hp
    exact .taken hb hd ho h
  | plain =>
    obtain ⟨earlier, hb, hd⟩ := hp
    exact ⟨earlier, _, _, _, hb, hd, .unguarded, rfl⟩
  | guarded hm =>
    obtain ⟨earlier, hb, hd⟩ := hp
    rw [Branch.ofLink_of_ne hm] at hb
    exact ⟨earlier, hb, hd⟩

theorem Transitions.reached (h : Transitions p n q) (hp : p.1.Reached bs s p.2) :
    q.1.Reached bs s q.2 := by
  induction h with
  | refl => exact hp
  | head h _ ih => exact ih (h.reached hp)

theorem Conditional.reached_entry (c : Conditional) (s : State) :
    c.entry.Reached c.branches s s := by
  cases c with
  | ifElse test body rest => exact ⟨[], rfl, .nil⟩
  | elseLink test body rest =>
    by_cases hm : test = .missing
    · subst hm
      exact ⟨[], _, _, s, rfl, .nil, .unguarded, rfl⟩
    · rw [entry, isMissing_of_ne hm, branches, Branch.ofLink_of_ne hm]
      exact ⟨[], rfl, .nil⟩

/-! ### How the machine ends -/

theorem exists_transitions_of_testing : ∀ {next : Chain} {test : Node} {body : List Node} {s : State},
    Selects (⟨some test, body⟩ :: next.toBranches) s r u →
      ∃ n, Transitions (.testing test body next, s) n (.ended r, u) := by
  -- The recursion is on the links that are left; a link without a test ends it.
  intro next test body s h
  rcases selects_guarded_iff.mp h with ⟨e, he, rfl⟩ | ⟨t, ht, hr⟩ | ⟨t, ht, h⟩
  · exact ⟨1, .head (.failed he) (.refl _)⟩
  · exact ⟨2, .head (.holds ht) (.head (.ran hr) (.refl _))⟩
  · match next with
    | .done =>
      obtain ⟨rfl, rfl⟩ := selects_nil_iff.mp h
      exact ⟨1, .head (.exhausted ht) (.refl _)⟩
    | .link test' body' next =>
      rw [Chain.toBranches] at h
      by_cases hm : test' = .missing
      · subst hm
        have hr := selects_unguarded_iff.mp h
        exact ⟨3, .head (.declined ht) (.head .plain (.head (.ran hr) (.refl _)))⟩
      · rw [Branch.ofLink_of_ne hm] at h
        obtain ⟨n, hn⟩ := exists_transitions_of_testing h
        exact ⟨n + 2, .head (.declined ht) (.head (.guarded hm) hn)⟩

/-- The machine ends with what the first matching branch does. -/
theorem exists_transitions_iff :
    (∃ n, Transitions (c.entry, s) n (.ended r, u)) ↔ Selects c.branches s r u := by
  constructor
  · rintro ⟨n, h⟩
    exact h.reached (c.reached_entry s)
  · intro h
    cases c with
    | ifElse test body rest => exact exists_transitions_of_testing h
    | elseLink test body rest =>
      by_cases hm : test = .missing
      · subst hm
        exact ⟨1, .head (.ran (selects_unguarded_iff.mp h)) (.refl _)⟩
      · rw [Conditional.branches, Branch.ofLink_of_ne hm] at h
        rw [Conditional.entry, isMissing_of_ne hm]
        exact exists_transitions_of_testing h

/-- A bound on the transitions from a phase on. -/
def Phase.left : Phase → Nat
  | .testing _ _ next => 2 * next.toBranches.length + 2
  | .running _ => 1
  | .advancing _ _ next => 2 * next.toBranches.length + 3
  | .ended _ => 0

theorem Transition.left_lt (h : Transition p q) : q.1.left < p.1.left := by
  cases h <;> simp only [Phase.left, Chain.toBranches, List.length_cons, List.length_nil] <;> omega

/-- Each step brings the machine closer to its end. -/
theorem Transitions.left_le (h : Transitions p n q) : n + q.1.left ≤ p.1.left := by
  induction h with
  | refl => omega
  | head h _ ih =>
    have hlt := h.left_lt
    omega

theorem Conditional.left_entry_le (c : Conditional) : c.entry.left ≤ 2 * c.branches.length := by
  cases c with
  | ifElse => simp only [entry, branches, Phase.left, List.length_cons]; omega
  | elseLink test =>
    rw [entry, branches]
    split <;> simp only [Phase.left, List.length_cons] <;> omega

/-- What the phase tests or runs comes to an end. -/
def Phase.Responds : Phase → State → Prop
  | .testing test _ _, s => ∃ r u, Tests test s r u
  | .running body, s => ∃ r u, Runs body s r u
  | .advancing .., _ | .ended _, _ => True

theorem Phase.Responds.exists_transition {ph : Phase} (h : ph.Responds s) :
    (∃ r, ph = .ended r) ∨ ∃ q, Transition (ph, s) q := by
  cases ph with
  | testing test body next =>
    obtain ⟨e | _ | _, u, ht⟩ := h
    · exact .inr ⟨_, .failed ht⟩
    · cases next with
      | done => exact .inr ⟨_, .exhausted ht⟩
      | link => exact .inr ⟨_, .declined ht⟩
    · exact .inr ⟨_, .holds ht⟩
  | running body =>
    obtain ⟨r, u, hr⟩ := h
    exact .inr ⟨_, .ran hr⟩
  | advancing test body next =>
    by_cases hm : test = .missing
    · subst hm
      exact .inr ⟨_, .plain⟩
    · exact .inr ⟨_, .guarded hm⟩
  | ended r => exact .inl ⟨r, rfl⟩

/-- The machine ends if all that it tests and runs does. -/
theorem exists_transitions_ended (ph : Phase) (s : State)
    (h : ∀ n q, Transitions (ph, s) n q → q.1.Responds q.2) :
    ∃ n r u, Transitions (ph, s) n (.ended r, u) := by
  rcases (h 0 _ (.refl _)).exists_transition with ⟨r, rfl⟩ | ⟨q, hq⟩
  · exact ⟨0, r, s, .refl _⟩
  · have hlt : q.1.left < ph.left := hq.left_lt
    obtain ⟨n, r, u, hn⟩ :=
      exists_transitions_ended q.1 q.2 fun n q' hq' => h (n + 1) q' (.head hq hq')
    exact ⟨n + 1, r, u, .head hq hn⟩
termination_by ph.left

/--
A conditional ends as the machine does, and this ends with what the first matching branch does. On
its way the machine tests only guards in front of which all branches were declined, and runs only the
block of the first branch that opens. It makes two transitions for each branch at most, and whenever
all that it tests and runs comes to an end, each of its runs goes on to an end.
-/
theorem ends_conditional (c : Conditional) (s : State) :
    (∀ r u, Ends c.node s r u ↔
      ∃ r' n, Transitions (c.entry, s) n (.ended r', u) ∧ r = r'.map fun _ => .empty) ∧
      (∀ r u, (∃ n, Transitions (c.entry, s) n (.ended r, u)) ↔ Selects c.branches s r u) ∧
      (∀ n ph t, Transitions (c.entry, s) n (ph, t) → ph.Reached c.branches s t) ∧
      (∀ n q, Transitions (c.entry, s) n q → n ≤ 2 * c.branches.length) ∧
      ((∀ n q, Transitions (c.entry, s) n q → q.1.Responds q.2) →
        ∀ n q, Transitions (c.entry, s) n q → ∃ m r u, Transitions q m (.ended r, u)) := by
  refine ⟨fun r u => ?_, fun r u => exists_transitions_iff,
    fun n ph t h => h.reached (c.reached_entry s), fun n q h => ?_, fun hr n q h => ?_⟩
  · simp only [ends_conditional_iff_selects, ← exists_transitions_iff, exists_and_right]
  · have hleft := h.left_le
    have hentry := c.left_entry_le
    dsimp only at hleft
    omega
  · exact exists_transitions_ended q.1 q.2 fun m q' h' => hr (n + m) q' (h.trans h')

/-- An `if` without a test, a test that binds a variable, and a link after a plain `else`. -/
theorem ends_conditional_misplaced_else :
    let test : Node := .condition (.assignment (some "x") (.identifier "y")) (.identifier "y")
    let body : List Node := [.assignment (some "z") (.identifier "x")]
    let last : Chain := .link (.identifier "unbound") [] .done
    let c : Conditional :=
      .ifElse .missing [.identifier "unbound"] (.link test [] (.link .missing body last))
    let s : State := ⟨⟨[("y", .boolean true)]⟩, []⟩
    let u : State := ⟨⟨[("x", .boolean true), ("y", .boolean true), ("z", .boolean true)]⟩, []⟩
    (∀ n q, Transitions (c.entry, s) n q → q.1.Responds q.2) ∧
      (∃ m r v, Transitions (c.entry, s) m (.ended r, v)) ∧
      Selects c.branches s (.ok ()) u := by
  intro test body last c s u
  let t : State := ⟨⟨[("x", .boolean true), ("y", .boolean true)]⟩, []⟩
  obtain ⟨hmachine, hselects, -, -, hends⟩ := ends_conditional c s
  have hfirst : Tests .missing s (.ok false) s := .missing
  have htest : Tests test s (.ok false) t := .boolean ⟨0, rfl⟩
  have hbody : Runs body t (.ok ()) u := .cons ⟨0, rfl⟩ .nil
  have hresponds n q (h : Transitions (c.entry, s) n q) : q.1.Responds q.2 := by
    obtain rfl | ⟨n, h⟩ := h.eq_or_of_transition (.declined hfirst)
    · exact ⟨_, _, hfirst⟩
    obtain rfl | ⟨n, h⟩ := h.eq_or_of_transition (.guarded nofun)
    · trivial
    obtain rfl | ⟨n, h⟩ := h.eq_or_of_transition (.declined htest)
    · exact ⟨_, _, htest⟩
    obtain rfl | ⟨n, h⟩ := h.eq_or_of_transition .plain
    · trivial
    obtain rfl | ⟨n, h⟩ := h.eq_or_of_transition (.ran hbody)
    · exact ⟨_, _, hbody⟩
    cases h with
    | refl => trivial
    | head h => cases h
  obtain ⟨r, n, hrun, hr⟩ := (hmachine (.ok .empty) u).mp ⟨0, rfl⟩
  cases r with
  | error e => cases hr
  | ok => exact ⟨hresponds, hends hresponds 0 _ (.refl _), (hselects _ u).mp ⟨n, hrun⟩⟩

end Evaluation

end Scriptlet
