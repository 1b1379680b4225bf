import Scriptlet.Proofs.Evaluation.Changes

/-!
# Locality of evaluation

An evaluation that ends does so with one result and in one state, however many passes its loops are
given. The result depends on the variables that occur in the tree, and the state changes in the
variables that the tree assigns. So other variables neither matter nor change, and two trees of
which neither assigns what occurs in the other one can be evaluated in either order.

## Main definitions

* `Evaluation.Ends`: an evaluation ends with a result, in a state

## Main statements

* `Evaluation.Ends.unique`: the result and the state are determined
* `Evaluation.Ends.transfer`: the same change from every state that agrees on the names
* `Evaluation.ends_iff_of_agreeOn`: variables that do not occur in a tree do not matter to it
* `Evaluation.frame_of_ends`: what an evaluation leaves as it was
* `Evaluation.ends_comm`: independent trees can be evaluated in either order
-/

namespace Scriptlet.Evaluation

open Effect

variable {n : Node} {s t u : State} {r : Except EvalError Value}

/-- The outcome of an action that has ended. -/
def Outcome.ended {α : Type} : Except EvalError α → State → Outcome α
  | .ok a, s => .done a s
  | .error e, s => .failed e s

/-- From `s`, the evaluation of `n` ends with `r` in the state `u`, given enough passes. -/
def Ends (n : Node) (s : State) (r : Except EvalError Value) (u : State) : Prop :=
  ∃ passes, evaluate passes n s = .ended r u

theorem Outcome.ended_inj {α : Type} {r r' : Except EvalError α} {u u' : State}
    (h : Outcome.ended r u = .ended r' u') : r = r' ∧ u = u' := by
  cases r <;> cases r' <;> simp_all [Outcome.ended]

/-- What matches an outcome that has ended has ended too. -/
theorem Outcome.Matches.exists_change {α : Type} {targets : List String} {r : Except EvalError α}
    {o : Outcome α} (h : (Outcome.ended r u).Matches targets s t o) :
    ∃ c : Change, c.Within targets ∧ u = c.apply s ∧ o = .ended r (c.apply t) := by
  cases r with
  | ok a =>
    cases h with
    | @done _ c hc => exact ⟨c, hc, rfl, rfl⟩
  | error e =>
    cases h with
    | @failed _ c hc => exact ⟨c, hc, rfl, rfl⟩

/-- The same change is made with more passes, and from every state that agrees on the names. -/
theorem exists_change_of_evaluate {p q : Nat} (h : evaluate p n s = .ended r u) (hpq : p ≤ q)
    (ht : s.env.AgreeOn n.names t.env) :
    ∃ c : Change, c.Within n.targets ∧ u = c.apply s ∧ evaluate q n t = .ended r (c.apply t) := by
  have hm := (Node.mimics hpq fun _ hm => Node.usesOnly_of_mem_subtrees hm).value s t ht
  change (evaluate p n s).Matches n.targets s t (evaluate q n t) at hm
  rw [h] at hm
  exact hm.exists_change

namespace Ends

theorem transfer (h : Ends n s r u) (ht : s.env.AgreeOn n.names t.env) :
    ∃ c : Change, c.Within n.targets ∧ u = c.apply s ∧ Ends n t r (c.apply t) := by
  obtain ⟨passes, h⟩ := h
  obtain ⟨c, hc, hu, hq⟩ := exists_change_of_evaluate h le_rfl ht
  exact ⟨c, hc, hu, passes, hq⟩

/-- More passes do not change how an evaluation ends. -/
theorem unique {r' : Except EvalError Value} {u' : State} (h : Ends n s r u) (h' : Ends n s r' u') :
    r = r' ∧ u = u' := by
  obtain ⟨p, h⟩ := h
  obtain ⟨q, h'⟩ := h'
  have agree : s.env.AgreeOn n.names s.env := fun _ _ => rfl
  obtain ⟨c, -, rfl, hc⟩ := exists_change_of_evaluate h (le_max_left p q) agree
  obtain ⟨d, -, rfl, hd⟩ := exists_change_of_evaluate h' (le_max_right p q) agree
  exact Outcome.ended_inj (hc.symm.trans hd)

/-- The change that an evaluation makes. -/
theorem exists_change (h : Ends n s r u) : ∃ c : Change, c.Within n.targets ∧ u = c.apply s := by
  obtain ⟨c, hc, hu, -⟩ := h.transfer fun _ _ => rfl
  exact ⟨c, hc, hu⟩

end Ends

/--
From two states in which the names that occur in a tree have the same values, the evaluation of the
tree ends for both or for neither; if it ends, then with the same result, the same new warnings and
the same values for these names.
-/
theorem ends_iff_of_agreeOn (h : s.env.AgreeOn n.names t.env) :
    ((∃ r u, Ends n s r u) ↔ ∃ r u, Ends n t r u) ∧
      ∀ r u r' u', Ends n s r u → Ends n t r' u' →
        r = r' ∧ u.env.AgreeOn n.names u'.env ∧
          ∃ added, u.warnings = s.warnings ++ added ∧ u'.warnings = t.warnings ++ added := by
  refine ⟨⟨?_, ?_⟩, ?_⟩
  · rintro ⟨r, u, hu⟩
    obtain ⟨c, -, -, hc⟩ := hu.transfer h
    exact ⟨r, _, hc⟩
  · rintro ⟨r, u, hu⟩
    obtain ⟨c, -, -, hc⟩ := hu.transfer h.symm
    exact ⟨r, _, hc⟩
  · intro r u r' u' hu hu'
    obtain ⟨c, -, rfl, hc⟩ := hu.transfer h
    obtain ⟨rfl, rfl⟩ := hc.unique hu'
    exact ⟨rfl, c.agreeOn_apply h, c.warnings, rfl, rfl⟩

theorem ends_iff_of_agreeOn_loop :
    let n : Node := .whileLoop (.identifier "go") [.assignment (some "go") (.identifier "off"),
      .assignment (some "x") (.assignment (some "y") (.identifier "off")), .identifier "z"]
    let s : State := ⟨⟨[("go", .boolean true), ("off", .boolean false)]⟩, []⟩
    let t : State := ⟨⟨[("go", .boolean true), ("k", .literal "a"), ("off", .boolean false)]⟩,
      [.undefined "z"]⟩
    s.env.AgreeOn n.names t.env ∧ (∃ r u, Ends n s r u) ∧ (∃ r u, Ends n t r u) ∧
      ∀ r u r' u', Ends n s r u → Ends n t r' u' →
        r = r' ∧ u.env.AgreeOn n.names u'.env ∧
          ∃ added, u.warnings = s.warnings ++ added ∧ u'.warnings = t.warnings ++ added := by
  intro n s t
  have h : s.env.AgreeOn n.names t.env := by decide
  have hs : Ends n s (.error (.undefined "z"))
      ⟨⟨[("go", .boolean false), ("off", .boolean false), ("y", .boolean false)]⟩,
        [.unassignable (.assignment (some "x") (.assignment (some "y") (.identifier "off"))) "x"
          (.assignment "y" (.boolean false))]⟩ := ⟨1, rfl⟩
  obtain ⟨hiff, hsame⟩ := ends_iff_of_agreeOn h
  exact ⟨h, ⟨_, _, hs⟩, hiff.mp ⟨_, _, hs⟩, hsame⟩

/--
Whether an evaluation ends with a value or an error, names that the tree does not assign keep their
values, bound names stay bound, and all warnings that are added are about values that cannot be
assigned.
-/
theorem frame_of_ends (h : Ends n s r u) :
    (∀ x ∉ n.targets, u.env.get? x = s.env.get? x) ∧
      (∀ x, (s.env.get? x).isSome → (u.env.get? x).isSome) ∧
      ∃ added, u.warnings = s.warnings ++ added ∧ ∀ w ∈ added, w.cause = .unassignableValue := by
  obtain ⟨c, hc, rfl⟩ := h.exists_change
  exact ⟨fun x hx => hc.get?_apply hx, fun x hx => c.isSome_get?_apply hx, c.warnings, rfl,
    hc.warnings⟩

theorem frame_of_ends_failed :
    let n : Node := .ifElse (.literal "true" .true) [.assignment (some "x") (.literal "a" .none),
      .assignment (some "y") (.assignment (some "x") (.literal "b" .none)),
      .negative (.identifier "x")] .done
    let s : State := ⟨⟨[("k", .literal "c"), ("x", .boolean false)]⟩, [.undefined "z"]⟩
    ∃ u, Ends n s (.error (.notNumber "x" (.literal "b"))) u ∧ "k" ∉ n.targets ∧
      u.env.get? "k" = s.env.get? "k" ∧ (s.env.get? "x").isSome ∧ (u.env.get? "x").isSome ∧
      ∃ added, u.warnings = s.warnings ++ added ∧ ∀ w ∈ added, w.cause = .unassignableValue := by
  intro n s
  have h : Ends n s (.error (.notNumber "x" (.literal "b")))
      ⟨⟨[("k", .literal "c"), ("x", .literal "b")]⟩, [.undefined "z",
        .unassignable (.assignment (some "y") (.assignment (some "x") (.literal "b" .none))) "y"
          (.assignment "x" (.literal "b"))]⟩ := ⟨0, rfl⟩
  obtain ⟨hkeep, hbound, hadded⟩ := frame_of_ends h
  exact ⟨_, h, by decide, hkeep "k" (by decide), rfl, hbound "x" rfl, hadded⟩

/--
If neither of two trees assigns a name that occurs in the other one, then they can be evaluated in
either order: each has the same value, and the same variables are left.
-/
theorem ends_comm {a b : Node} (hab : ∀ x ∈ a.targets, x ∉ b.names)
    (hba : ∀ x ∈ b.targets, x ∉ a.names) {v w : Value} (ha : Ends a s (.ok v) t)
    (hb : Ends b t (.ok w) u) :
    ∃ t' u', Ends b s (.ok w) t' ∧ Ends a t' (.ok v) u' ∧ u'.env = u.env := by
  obtain ⟨c, hc, rfl⟩ := ha.exists_change
  obtain ⟨d, hd, rfl, hb'⟩ := hb.transfer (hc.agreeOn_apply hab s).symm
  -- The change of `a` from the state after `b` need not be `c`, but it has the same effect on `s`.
  obtain ⟨c', hc', hcs, ha'⟩ := ha.transfer (hd.agreeOn_apply hba s)
  refine ⟨d.apply s, c'.apply (d.apply s), hb', ha', ?_⟩
  rw [hcs]
  exact hc'.env_apply_comm hd fun x hx hxb => hab x hx (Node.mem_names_of_mem_targets hxb)

theorem ends_comm_loop :
    let a : Node := .whileLoop (.identifier "go") [.assignment (some "go") (.identifier "off")]
    let b : Node := .assignment (some "last") (.condition (.identifier "off") (.literal "x" .none))
    let s : State := ⟨⟨[("go", .boolean true), ("off", .boolean false)]⟩, []⟩
    ∃ t u t' u', Ends a s (.ok .empty) t ∧ Ends b t (.ok (.assignment "last" (.boolean false))) u ∧
      Ends b s (.ok (.assignment "last" (.boolean false))) t' ∧ Ends a t' (.ok .empty) u' ∧
        u'.env = u.env := by
  intro a b s
  have ha : Ends a s (.ok .empty) ⟨⟨[("go", .boolean false), ("off", .boolean false)]⟩, []⟩ :=
    ⟨2, rfl⟩
  have hb : Ends b ⟨⟨[("go", .boolean false), ("off", .boolean false)]⟩, []⟩
      (.ok (.assignment "last" (.boolean false)))
      ⟨⟨[("go", .boolean false), ("last", .boolean false), ("off", .boolean false)]⟩, []⟩ :=
    ⟨0, rfl⟩
  obtain ⟨t', u', hb', ha', hu⟩ := ends_comm (by decide) (by decide) ha hb
  exact ⟨_, _, t', u', ha, hb, hb', ha', hu⟩

end Scriptlet.Evaluation
