import Scriptlet.Proofs.Evaluation.Locality

/-!
# Rules of evaluation

How actions end, without the passes of their loops. An action that has ended with some passes ends
in the same way with more of them, so that a sequence ends as its parts do, each with the passes
that it needs. This gives rules for the use of a node as an operand of arithmetic and as a test, and
for the statements of a block, which speak of nothing but how the evaluation of nodes ends.

## Main definitions

* `Evaluation.Effect.Reaches`: an action ends with a result, in a state
* `Evaluation.EndsAsNumber`: the evaluation of an operand of arithmetic ends
* `Evaluation.Tests`: what the test of a branch or loop gives
* `Evaluation.Runs`: what the statements of a block do

## Main statements

* `Evaluation.Effect.reaches_bind_iff`: how a sequence of actions ends
* `Evaluation.endsAsNumber_iff`: an operand is evaluated, and its value has to be a number
* `Evaluation.reaches_test_iff`, `Evaluation.reaches_block_iff`: the actions of a node follow the rules
* `Evaluation.ends_assignment_iff`, `Evaluation.ends_condition_iff`: how nodes with two steps end
-/

namespace Scriptlet

namespace Evaluation

open Effect

variable {α β : Type} {s t u : State}

/-! ## How actions end -/

namespace Effect

/-- A sequence fails with its first part, or it ends as its second part does from where that ended. -/
theorem bind_eq_ended_iff {x : Effect α} {f : α → Effect β} {r : Except EvalError β} :
    (x >>= f) s = .ended r u ↔
      (∃ e, x s = .ended (.error e) u ∧ r = .error e) ∨
        ∃ a t, x s = .ended (.ok a) t ∧ f a t = .ended r u := by
  change Effect.bind x f s = _ ↔ _
  unfold Effect.bind
  cases x s with
  | done a t => simp [Outcome.ended]
  | failed e t => cases r <;> simp [Outcome.ended, and_comm, eq_comm]
  | unfinished => cases r <;> simp [Outcome.ended]

/-- From `s`, the action ends with `r` in the state `u`, given enough passes. -/
def Reaches (x : Nat → Effect α) (s : State) (r : Except EvalError α) (u : State) : Prop :=
  ∃ passes, x passes s = .ended r u

/-- More passes do not change how the action ends. -/
def Steady (x : Nat → Effect α) : Prop :=
  ∀ ⦃p q s r u⦄, p ≤ q → x p s = .ended r u → x q s = .ended r u

/-- What does the same as an action that has ended ends in the same way. -/
theorem Mimics.ended {names targets : List String} {x y : Effect α} {r : Except EvalError α}
    (h : Mimics names targets x y) (hx : x s = .ended r u) : y s = .ended r u := by
  have hm := h s s fun _ _ => rfl
  rw [hx] at hm
  obtain ⟨c, -, rfl, hy⟩ := hm.exists_change
  exact hy

theorem steady_of_mimics {x : Nat → Effect α} (n : Node)
    (h : ∀ {p q}, p ≤ q → Mimics n.names n.targets (x p) (x q)) : Steady x :=
  fun _ _ _ _ _ hpq hp => (h hpq).ended hp

theorem steady_const (x : Effect α) : Steady fun _ => x := fun _ _ _ _ _ _ h => h

theorem Steady.bind {x : Nat → Effect α} {f : α → Nat → Effect β} (hx : Steady x)
    (hf : ∀ a, Steady (f a)) : Steady fun p => x p >>= fun a => f a p := by
  intro p q s r u hpq h
  rw [bind_eq_ended_iff] at h ⊢
  rcases h with ⟨e, he, hr⟩ | ⟨a, t, ha, hr⟩
  · exact .inl ⟨e, hx hpq he, hr⟩
  · exact .inr ⟨a, t, hx hpq ha, hf a hpq hr⟩

/-- How an action ends is determined. -/
theorem Steady.unique {x : Nat → Effect α} (hx : Steady x) {r r' : Except EvalError α} {u' : State}
    (h : Reaches x s r u) (h' : Reaches x s r' u') : r = r' ∧ u = u' := by
  obtain ⟨p, hp⟩ := h
  obtain ⟨q, hq⟩ := h'
  exact Outcome.ended_inj ((hx (le_max_left p q) hp).symm.trans (hx (le_max_right p q) hq))

theorem reaches_const_iff {x : Effect α} {r : Except EvalError α} :
    Reaches (fun _ => x) s r u ↔ x s = .ended r u :=
  exists_const Nat

theorem reaches_pure_iff {a : α} {r : Except EvalError α} :
    Reaches (fun _ => pure a) s r u ↔ r = .ok a ∧ u = s := by
  rw [reaches_const_iff]
  constructor
  · intro h
    have he : Outcome.ended (.ok a) s = .ended r u := h
    exact (Outcome.ended_inj he).imp Eq.symm Eq.symm
  · rintro ⟨rfl, rfl⟩
    rfl

theorem reaches_fail_iff {e : EvalError} {r : Except EvalError α} :
    Reaches (fun _ => fail e) s r u ↔ r = .error e ∧ u = s := by
  rw [reaches_const_iff]
  constructor
  · intro h
    have he : Outcome.ended (.error e) s = .ended r u := h
    exact (Outcome.ended_inj he).imp Eq.symm Eq.symm
  · rintro ⟨rfl, rfl⟩
    rfl

/-- The two parts of a sequence may need different numbers of passes. -/
theorem reaches_bind_iff {x : Nat → Effect α} {f : α → Nat → Effect β} (hx : Steady x)
    (hf : ∀ a, Steady (f a)) {r : Except EvalError β} :
    Reaches (fun p => x p >>= fun a => f a p) s r u ↔
      (∃ e, Reaches x s (.error e) u ∧ r = .error e) ∨
        ∃ a t, Reaches x s (.ok a) t ∧ Reaches (f a) t r u := by
  constructor
  · rintro ⟨p, hp⟩
    rcases bind_eq_ended_iff.mp hp with ⟨e, he, hr⟩ | ⟨a, t, ha, hr⟩
    · exact .inl ⟨e, ⟨p, he⟩, hr⟩
    · exact .inr ⟨a, t, ⟨p, ha⟩, ⟨p, hr⟩⟩
  · rintro (⟨e, ⟨p, he⟩, hr⟩ | ⟨a, t, ⟨p, ha⟩, ⟨q, hr⟩⟩)
    · exact ⟨p, bind_eq_ended_iff.mpr (.inl ⟨e, he, hr⟩)⟩
    · refine ⟨max p q, bind_eq_ended_iff.mpr (.inr ⟨a, t, ?_, ?_⟩)⟩
      · exact hx (le_max_left p q) ha
      · exact hf a (le_max_right p q) hr

theorem Steady.choice {x y : Nat → Effect α} (hx : Steady x) (hy : Steady y) (b : Bool) :
    Steady fun p => if b then x p else y p := by
  cases b
  · exact hy
  · exact hx

theorem reaches_branch_iff {c : Nat → Effect Bool} {x y : Nat → Effect α} (hc : Steady c)
    (hx : Steady x) (hy : Steady y) {r : Except EvalError α} :
    Reaches (fun p => do if ← c p then x p else y p) s r u ↔
      (∃ e, Reaches c s (.error e) u ∧ r = .error e) ∨
        (∃ t, Reaches c s (.ok true) t ∧ Reaches x t r u) ∨
          ∃ t, Reaches c s (.ok false) t ∧ Reaches y t r u := by
  rw [reaches_bind_iff hc (hx.choice hy)]
  simp [Bool.exists_bool, or_comm]

/-- What is done with a result, if that needs no passes and leaves the state alone. -/
theorem bind_eq_ended_iff_of_ended {x : Effect α} {f : α → Effect β} {g : α → Except EvalError β}
    (hf : ∀ a s, f a s = .ended (g a) s) {r : Except EvalError β} :
    (x >>= f) s = .ended r u ↔ ∃ r', x s = .ended r' u ∧ r = r'.bind g := by
  rw [bind_eq_ended_iff]
  constructor
  · rintro (⟨e, he, rfl⟩ | ⟨a, t, ha, hr⟩)
    · exact ⟨.error e, he, rfl⟩
    · obtain ⟨rfl, rfl⟩ := Outcome.ended_inj ((hf a t).symm.trans hr)
      exact ⟨.ok a, ha, rfl⟩
  · rintro ⟨e | a, hx, rfl⟩
    · exact .inl ⟨e, hx, rfl⟩
    · exact .inr ⟨a, u, hx, hf a u⟩

/-- What holds with every number of passes. -/
theorem reaches_iff_of_forall {x : Nat → Effect α} {y : Nat → Effect β}
    {g : α → Except EvalError β} {r : Except EvalError β}
    (h : ∀ p, y p s = .ended r u ↔ ∃ r', x p s = .ended r' u ∧ r = r'.bind g) :
    Reaches y s r u ↔ ∃ r', Reaches x s r' u ∧ r = r'.bind g := by
  simp only [Reaches, h]
  exact exists_comm.trans (by simp only [exists_and_right])

end Effect

/-! ## Trees -/

variable {n : Node}

theorem isMissing_of_ne (hn : n ≠ .missing) : n.isMissing = false :=
  Bool.eq_false_iff.mpr fun h => hn (Node.isMissing_iff.mp h)

theorem mimics_self (n : Node) {p q : Nat} (hpq : p ≤ q) :
    (meaning p n).Mimics n.names n.targets (meaning q n) :=
  Node.mimics hpq fun _ => Node.usesOnly_of_mem_subtrees

theorem steady_value (n : Node) : Steady fun p => (meaning p n).value :=
  steady_of_mimics n fun hpq => (mimics_self n hpq).value

theorem steady_number (n : Node) : Steady fun p => (meaning p n).number :=
  steady_of_mimics n fun hpq => (mimics_self n hpq).number

theorem steady_test (n : Node) : Steady fun p => (meaning p n).test :=
  steady_of_mimics n fun hpq => (mimics_self n hpq).test

theorem steady_block (body : List Node) : Steady fun p => block p body := by
  refine steady_of_mimics (.whileLoop .missing body) fun hpq => mimics_block hpq fun _ hm => ?_
  exact Node.usesOnly_of_mem_subtrees (by simp [Node.subtrees, hm])

theorem steady_branches (rest : Chain) : Steady fun p => branches p rest := by
  refine steady_of_mimics (.ifElse .missing [] rest) fun hpq => Chain.mimics hpq fun _ hm => ?_
  exact Node.usesOnly_of_mem_subtrees (by simp [Node.subtrees, hm])

/-! ## Operands and tests -/

/-- Why a value that is no number cannot be an operand; a variable is reported by its name. -/
def operandError (n : Node) (v : Value) : EvalError :=
  match n with
  | .identifier name => .notNumber name v
  | n => .badOperand n v

theorem cause_operandError (n : Node) (v : Value) : (operandError n v).cause = .typeMismatch := by
  cases n <;> rfl

/-- The number that an operand's value has to be. -/
def asNumber (n : Node) : Value → Except EvalError Float
  | .number f => .ok f
  | v => .error (operandError n v)

/-- The boolean that the value of a test has to be. -/
def asTest (n : Node) : Value → Except EvalError Bool
  | .boolean b => .ok b
  | v => .error (.badTest n v)

theorem asNumber_of_ne {v : Value} (hv : ∀ f, v ≠ .number f) (n : Node) :
    asNumber n v = .error (operandError n v) := by
  cases v with
  | number f => exact absurd rfl (hv f)
  | literal | boolean | assignment | empty | absent => rfl

theorem asTest_of_ne {v : Value} (hv : ∀ b, v ≠ .boolean b) (n : Node) :
    asTest n v = .error (.badTest n v) := by
  cases v with
  | boolean b => exact absurd rfl (hv b)
  | number | literal | assignment | empty | absent => rfl

namespace Meaning

theorem number_ofValue_eq_ended_iff {x : Effect Value} {r : Except EvalError Float}
    (hn : ∀ v, operandError n v = .badOperand n v) :
    (ofValue n x).number s = .ended r u ↔ ∃ r', x s = .ended r' u ∧ r = r'.bind (asNumber n) := by
  refine bind_eq_ended_iff_of_ended fun v t => ?_
  cases v with
  | number f => rfl
  | literal | boolean | assignment | empty | absent => simp [asNumber, hn]; rfl

theorem test_ofValue_eq_ended_iff {x : Effect Value} {r : Except EvalError Bool} :
    (ofValue n x).test s = .ended r u ↔ ∃ r', x s = .ended r' u ∧ r = r'.bind (asTest n) := by
  refine bind_eq_ended_iff_of_ended fun v t => ?_
  cases v <;> rfl

/-- An action whose result is the value of its node gives what that value is read as. -/
theorem eq_ended_iff_of_wrap {x : Effect α} (wrap : α → Value) {g : Value → Except EvalError α}
    (hg : ∀ a, g (wrap a) = .ok a) {r : Except EvalError α} :
    x s = .ended r u ↔
      ∃ r', (do return wrap (← x) : Effect Value) s = .ended r' u ∧ r = r'.bind g := by
  have hvalue {r' : Except EvalError Value} :
      (do return wrap (← x) : Effect Value) s = .ended r' u ↔
        ∃ r, x s = .ended r u ∧ r' = r.bind fun a => .ok (wrap a) :=
    bind_eq_ended_iff_of_ended (g := fun a => .ok (wrap a)) fun _ _ => rfl
  have hback (r : Except EvalError α) : (r.bind fun a => .ok (wrap a)).bind g = r := by
    cases r with
    | error e => rfl
    | ok a => exact hg a
  constructor
  · exact fun h => ⟨_, hvalue.mpr ⟨r, h, rfl⟩, (hback r).symm⟩
  · rintro ⟨r', hr', rfl⟩
    obtain ⟨r, hr, rfl⟩ := hvalue.mp hr'
    rwa [hback]

end Meaning

/-- An operand is evaluated like a statement, and its value has to be a number. -/
theorem number_eq_ended_iff {passes : Nat} {r : Except EvalError Float} :
    (meaning passes n).number s = .ended r u ↔
      ∃ r', evaluate passes n s = .ended r' u ∧ r = r'.bind (asNumber n) := by
  unfold evaluate
  cases n with
  | number | negative | binary =>
    rw [meaning]
    exact Meaning.eq_ended_iff_of_wrap .number (g := asNumber _) fun _ => rfl
  | identifier name =>
    rw [meaning]
    refine bind_eq_ended_iff_of_ended fun v t => ?_
    cases v <;> rfl
  | missing | literal | assignment | condition | ifElse | elseLink | whileLoop | endOfInput =>
    rw [meaning]
    exact Meaning.number_ofValue_eq_ended_iff fun _ => rfl

/-- A test is evaluated like a statement, and its value has to be a boolean. -/
theorem test_eq_ended_iff (hn : n ≠ .missing) {passes : Nat} {r : Except EvalError Bool} :
    (meaning passes n).test s = .ended r u ↔
      ∃ r', evaluate passes n s = .ended r' u ∧ r = r'.bind (asTest n) := by
  unfold evaluate
  cases n with
  | missing => exact absurd rfl hn
  | condition =>
    rw [meaning]
    exact Meaning.eq_ended_iff_of_wrap .boolean (g := asTest _) fun _ => rfl
  | number | negative | binary | identifier | literal | assignment | ifElse | elseLink | whileLoop
  | endOfInput =>
    rw [meaning]
    exact Meaning.test_ofValue_eq_ended_iff

/-- From `s`, the evaluation of `n` as an operand of arithmetic ends with `r` in the state `u`. -/
def EndsAsNumber (n : Node) (s : State) (r : Except EvalError Float) (u : State) : Prop :=
  Reaches (fun p => (meaning p n).number) s r u

theorem endsAsNumber_iff {r : Except EvalError Float} :
    EndsAsNumber n s r u ↔ ∃ r', Ends n s r' u ∧ r = r'.bind (asNumber n) :=
  reaches_iff_of_forall fun _ => number_eq_ended_iff

/-- What a test gives: one that is missing does not hold, and one that is no boolean fails. -/
inductive Tests : Node → State → Except EvalError Bool → State → Prop where
  | missing {s : State} : Tests .missing s (.ok false) s
  | boolean {n : Node} {s u : State} {b : Bool} (h : Ends n s (.ok (.boolean b)) u) :
      Tests n s (.ok b) u
  | other {n : Node} {s u : State} {v : Value} (h : Ends n s (.ok v) u)
      (hv : ∀ b, v ≠ .boolean b) : Tests n s (.error (.badTest n v)) u
  | failed {n : Node} {s u : State} {e : EvalError} (hn : n ≠ .missing)
      (h : Ends n s (.error e) u) : Tests n s (.error e) u

theorem not_ends_missing_ok {v : Value} : ¬ Ends .missing s (.ok v) u := by
  rintro ⟨p, hp⟩
  cases hp

theorem tests_missing_iff {r : Except EvalError Bool} :
    Tests .missing s r u ↔ r = .ok false ∧ u = s := by
  constructor
  · intro h
    cases h with
    | missing => exact ⟨rfl, rfl⟩
    | boolean h | other h => exact absurd h not_ends_missing_ok
    | failed hn => exact absurd rfl hn
  · rintro ⟨rfl, rfl⟩
    exact .missing

theorem reaches_test_iff {r : Except EvalError Bool} :
    Reaches (fun p => (meaning p n).test) s r u ↔ Tests n s r u := by
  by_cases hn : n = .missing
  · rw [hn, tests_missing_iff]
    exact reaches_pure_iff
  · refine (reaches_iff_of_forall fun _ => test_eq_ended_iff hn).trans ⟨?_, fun h => ?_⟩
    · rintro ⟨e | v, h, rfl⟩
      · exact .failed hn h
      · cases v with
        | boolean b => exact .boolean h
        | number | literal | assignment | empty | absent => exact .other h (by simp)
    · cases h with
      | missing => exact absurd rfl hn
      | boolean h => exact ⟨_, h, rfl⟩
      | failed _ h => exact ⟨_, h, rfl⟩
      | other h hv => exact ⟨_, h, (asTest_of_ne hv n).symm⟩

/-- What a test gives is determined. -/
theorem Tests.unique {r r' : Except EvalError Bool} {u' : State} (h : Tests n s r u)
    (h' : Tests n s r' u') : r = r' ∧ u = u' :=
  (steady_test n).unique (reaches_test_iff.mpr h) (reaches_test_iff.mpr h')

/-! ## Blocks and statements -/

/-- What the statements of a block do: each starts where the one before it ended, up to a failure. -/
inductive Runs : List Node → State → Except EvalError Unit → State → Prop where
  | nil {s : State} : Runs [] s (.ok ()) s
  | cons {n : Node} {ns : List Node} {s t u : State} {v : Value} {r : Except EvalError Unit}
      (h : Ends n s (.ok v) t) (hr : Runs ns t r u) : Runs (n :: ns) s r u
  | failed {n : Node} {ns : List Node} {s u : State} {e : EvalError}
      (h : Ends n s (.error e) u) : Runs (n :: ns) s (.error e) u

theorem reaches_block_iff {body : List Node} {r : Except EvalError Unit} :
    Reaches (fun p => block p body) s r u ↔ Runs body s r u := by
  induction body generalizing s with
  | nil =>
    refine reaches_pure_iff.trans ⟨?_, fun h => ?_⟩
    · rintro ⟨rfl, rfl⟩
      exact .nil
    · cases h
      exact ⟨rfl, rfl⟩
  | cons n ns ih =>
    refine (reaches_bind_iff (steady_value n) fun _ => steady_block ns).trans ⟨?_, fun h => ?_⟩
    · rintro (⟨e, he, rfl⟩ | ⟨v, t, hv, hr⟩)
      · exact .failed he
      · exact .cons hv (ih.mp hr)
    · cases h with
      | cons hv hr => exact .inr ⟨_, _, hv, ih.mpr hr⟩
      | failed he => exact .inl ⟨_, he, rfl⟩

/-- What a block does is determined. -/
theorem Runs.unique {body : List Node} {r r' : Except EvalError Unit} {u' : State}
    (h : Runs body s r u) (h' : Runs body s r' u') : r = r' ∧ u = u' :=
  (steady_block body).unique (reaches_block_iff.mpr h) (reaches_block_iff.mpr h')

/-- Statements after others start where these ended, unless these fail. -/
theorem runs_append_iff {ns ms : List Node} {r : Except EvalError Unit} :
    Runs (ns ++ ms) s r u ↔
      (∃ e, Runs ns s (.error e) u ∧ r = .error e) ∨ ∃ t, Runs ns s (.ok ()) t ∧ Runs ms t r u := by
  induction ns generalizing s with
  | nil =>
    refine ⟨fun h => .inr ⟨s, .nil, h⟩, ?_⟩
    rintro (⟨e, he, -⟩ | ⟨t, ht, hr⟩)
    · cases he
    · cases ht
      exact hr
  | cons n ns ih =>
    constructor
    · intro h
      cases h with
      | failed he => exact .inl ⟨_, .failed he, rfl⟩
      | cons hv hr =>
        rcases ih.mp hr with ⟨e, he, rfl⟩ | ⟨t, ht, hr⟩
        · exact .inl ⟨e, .cons hv he, rfl⟩
        · exact .inr ⟨t, .cons hv ht, hr⟩
    · rintro (⟨e, he, rfl⟩ | ⟨t, ht, hr⟩)
      · cases he with
        | failed he => exact .failed he
        | cons hv he => exact .cons hv (ih.mpr (.inl ⟨e, he, rfl⟩))
      · cases ht with
        | cons hv ht => exact .cons hv (ih.mpr (.inr ⟨t, ht, hr⟩))

theorem runs_singleton_iff {r : Except EvalError Unit} :
    Runs [n] s r u ↔ ∃ r', Ends n s r' u ∧ r = r'.map fun _ => () := by
  constructor
  · intro h
    cases h with
    | failed he => exact ⟨_, he, rfl⟩
    | cons hv hr =>
      cases hr
      exact ⟨_, hv, rfl⟩
  · rintro ⟨e | v, h, rfl⟩
    · exact .failed h
    · exact .cons h .nil

/-- A node whose value is made of the result of an action ends as that action does. -/
theorem ends_iff_of_wrap {x : Nat → Effect α} {wrap : α → Value}
    (h : ∀ p, (meaning p n).value = do return wrap (← x p)) {r : Except EvalError Value} :
    Ends n s r u ↔ ∃ r', Reaches x s r' u ∧ r = r'.map wrap := by
  refine reaches_iff_of_forall (g := fun a => .ok (wrap a)) fun p => ?_
  rw [evaluate, h]
  exact bind_eq_ended_iff_of_ended (f := fun a => pure (wrap a)) fun _ _ => rfl

theorem ends_number_iff {f : Float} {r : Except EvalError Value} :
    Ends (.number f) s r u ↔ r = .ok (.number f) ∧ u = s :=
  reaches_pure_iff

theorem ends_literal_iff {text : String} {k : Keyword} {r : Except EvalError Value} :
    Ends (.literal text k) s r u ↔ r = .ok (literalValue text k) ∧ u = s :=
  reaches_pure_iff

/-- A variable has the value that is found, or it is undefined; the state is left alone. -/
theorem ends_identifier_iff {x : String} {r : Except EvalError Value} :
    Ends (.identifier x) s r u ↔
      ((∃ v, s.env.get? x = some v ∧ r = .ok v) ∨
        s.env.get? x = none ∧ r = .error (.undefined x)) ∧ u = s := by
  have hlookup : Ends (.identifier x) s r u ↔ lookup x s = .ended r u := reaches_const_iff
  rw [hlookup]
  cases hx : s.env.get? x with
  | none => cases r <;> simp [lookup, hx, Outcome.ended, eq_comm]
  | some v => cases r <;> simp [lookup, hx, Outcome.ended, eq_comm]

theorem ends_missing_iff {r : Except EvalError Value} :
    Ends .missing s r u ↔ r = .error .noNode ∧ u = s :=
  reaches_fail_iff

theorem ends_endOfInput_iff {text : String} {r : Except EvalError Value} :
    Ends (.endOfInput text) s r u ↔ r = .error (.badNode (.endOfInput text)) ∧ u = s :=
  reaches_fail_iff

theorem ends_assignment_none_iff {e : Node} {r : Except EvalError Value} :
    Ends (.assignment none e) s r u ↔ r = .error (.noTarget (.assignment none e)) ∧ u = s :=
  reaches_fail_iff

/-- An assignment ends as its value does, and what is found is bound or warned of. -/
theorem ends_assignment_iff {x : String} {e : Node} {r : Except EvalError Value} :
    Ends (.assignment (some x) e) s r u ↔
      (∃ err, Ends e s (.error err) u ∧ r = .error err) ∨
        ∃ v t, Ends e s (.ok v) t ∧
          ∃ w, Assigned (.assignment (some x) e) x v t w u ∧ r = .ok w := by
  have hdone {o : Outcome Value} {v w : Value} {t u' : State}
      (ha : Assigned (.assignment (some x) e) x v t w u') (ho : o = .done w u') :
      o = .ended r u ↔ ∃ w, Assigned (.assignment (some x) e) x v t w u ∧ r = .ok w := by
    subst ho
    constructor
    · intro h
      obtain ⟨rfl, rfl⟩ := Outcome.ended_inj (r := .ok w) h
      exact ⟨w, ha, rfl⟩
    · rintro ⟨w', ha', rfl⟩
      obtain ⟨rfl, rfl⟩ := ha.unique ha'
      rfl
  refine (reaches_bind_iff (steady_value e) fun v => steady_const _).trans ?_
  refine or_congr_right (exists_congr fun v => exists_congr fun t => and_congr_right fun _ => ?_)
  refine reaches_const_iff.trans ?_
  by_cases h : v.isStorable
  · exact hdone (.bound h) (by simp [h, Environment.define])
  · exact hdone (.warned h) (by simp [h]; rfl)

/-- An equality test evaluates its left side, and then its right side from where that has ended. -/
theorem ends_condition_iff {left right : Node} {r : Except EvalError Value} :
    Ends (.condition left right) s r u ↔
      (∃ e, Ends left s (.error e) u ∧ r = .error e) ∨
        ∃ v t, Ends left s (.ok v) t ∧
          ((∃ e, Ends right t (.error e) u ∧ r = .error e) ∨
            ∃ w, Ends right t (.ok w) u ∧ r = .ok (.boolean (v.equal w))) := by
  have hright (v : Value) := (steady_value right).bind fun w => steady_const (pure (v.equal w))
  rw [ends_iff_of_wrap fun p => by rw [meaning]; rfl]
  simp only [reaches_bind_iff (steady_value left) hright,
    reaches_bind_iff (steady_value right) fun w => steady_const (pure _), reaches_pure_iff]
  constructor
  · rintro ⟨r', ⟨e, hl, rfl⟩ | ⟨v, t, hl, ⟨e, hr, rfl⟩ | ⟨w, _, hr, rfl, rfl⟩⟩, rfl⟩
    · exact .inl ⟨e, hl, rfl⟩
    · exact .inr ⟨v, t, hl, .inl ⟨e, hr, rfl⟩⟩
    · exact .inr ⟨v, t, hl, .inr ⟨w, hr, rfl⟩⟩
  · rintro (⟨e, hl, rfl⟩ | ⟨v, t, hl, ⟨e, hr, rfl⟩ | ⟨w, hr, rfl⟩⟩)
    · exact ⟨_, .inl ⟨e, hl, rfl⟩, rfl⟩
    · exact ⟨_, .inr ⟨v, t, hl, .inl ⟨e, hr, rfl⟩⟩, rfl⟩
    · exact ⟨_, .inr ⟨v, t, hl, .inr ⟨w, u, hr, rfl, rfl⟩⟩, rfl⟩

theorem ends_ifElse_iff {test : Node} {body : List Node} {rest : Chain}
    {r : Except EvalError Value} :
    Ends (.ifElse test body rest) s r u ↔
      ∃ r', ((∃ e, Tests test s (.error e) u ∧ r' = .error e) ∨
        (∃ t, Tests test s (.ok true) t ∧ Runs body t r' u) ∨
          ∃ t, Tests test s (.ok false) t ∧ Reaches (fun p => branches p rest) t r' u) ∧
        r = r'.map fun _ => .empty := by
  rw [ends_iff_of_wrap fun p => by rw [meaning]; rfl]
  simp only [reaches_branch_iff (steady_test test) (steady_block body) (steady_branches rest),
    reaches_test_iff, reaches_block_iff]

end Evaluation

end Scriptlet
