import Scriptlet.Proofs.Evaluation.Rules

/-!
# Operands of arithmetic

Arithmetic evaluates its operands in a way of its own, which takes numbers, negations, operations
and variables directly and leaves all other nodes to the general way. The two ways agree on every
tree: they end for the same states, fail alike and change the state alike, and where the general one
gives a value that is no number, arithmetic fails with a type mismatch. An operation evaluates its
left operand first, and its right operand only if the left one is a number.

## Main statements

* `Evaluation.ends_negative_iff`, `Evaluation.ends_binary_iff`: how negations and operations end
* `Evaluation.endsAsNumber_agrees`: operands and statements are evaluated alike
-/

namespace Scriptlet.Evaluation

open Effect

variable {n left right : Node} {op : Token.Kind} {s t u : State}

theorem endsAsNumber_ok_iff {f : Float} :
    EndsAsNumber n s (.ok f) u ↔ Ends n s (.ok (.number f)) u := by
  rw [endsAsNumber_iff]
  constructor
  · rintro ⟨e | v, h, hr⟩
    · cases hr
    · cases v with
      | number g =>
        cases hr
        exact h
      | literal | boolean | assignment | empty | absent => cases hr
  · exact fun h => ⟨_, h, rfl⟩

theorem endsAsNumber_error_iff {e : EvalError} :
    EndsAsNumber n s (.error e) u ↔ Ends n s (.error e) u ∨
      ∃ v, Ends n s (.ok v) u ∧ (∀ f, v ≠ .number f) ∧ e = operandError n v := by
  rw [endsAsNumber_iff]
  constructor
  · rintro ⟨e' | v, h, hr⟩
    · cases hr
      exact .inl h
    · cases v with
      | number g => cases hr
      | literal | boolean | assignment | empty | absent =>
        cases hr
        exact .inr ⟨_, h, by simp, rfl⟩
  · rintro (h | ⟨v, h, hv, rfl⟩)
    · exact ⟨_, h, rfl⟩
    · exact ⟨_, h, (asNumber_of_ne hv n).symm⟩

/-- A negation ends as its operand does, with the opposite number. -/
theorem ends_negative_iff {r : Except EvalError Value} :
    Ends (.negative n) s r u ↔ ∃ x, EndsAsNumber n s x u ∧ r = x.map fun f => .number (-f) := by
  have hnegated {x : Except EvalError Float} :
      Reaches (fun p => do return -(← (meaning p n).number)) s x u ↔
        ∃ y, EndsAsNumber n s y u ∧ x = y.bind fun f => .ok (-f) :=
    reaches_iff_of_forall fun _ =>
      bind_eq_ended_iff_of_ended (f := fun f => pure (-f)) fun _ _ => rfl
  rw [ends_iff_of_wrap fun p => by rw [meaning]; rfl]
  constructor
  · rintro ⟨x, hx, rfl⟩
    obtain ⟨y, hy, rfl⟩ := hnegated.mp hx
    exact ⟨y, hy, by cases y <;> rfl⟩
  · rintro ⟨y, hy, rfl⟩
    exact ⟨_, hnegated.mpr ⟨y, hy, rfl⟩, by cases y <;> rfl⟩

/-- How an operation ends: its left operand first, and its right one from where that has ended. -/
inductive Computes (op : Token.Kind) (left right : Node) :
    State → Except EvalError Float → State → Prop where
  | left {s u : State} {e : EvalError} (hl : EndsAsNumber left s (.error e) u) :
      Computes op left right s (.error e) u
  | right {s t u : State} {a : Float} {e : EvalError} (hl : EndsAsNumber left s (.ok a) t)
      (hr : EndsAsNumber right t (.error e) u) : Computes op left right s (.error e) u
  | both {s t v u : State} {a b : Float} {x : Except EvalError Float}
      (hl : EndsAsNumber left s (.ok a) t) (hr : EndsAsNumber right t (.ok b) v)
      (hx : arithmetic (.binary op left right) op a b v = .ended x u) :
      Computes op left right s x u

theorem ends_binary_iff {r : Except EvalError Value} :
    Ends (.binary op left right) s r u ↔
      ∃ x, Computes op left right s x u ∧ r = x.map .number := by
  have hconst (a b : Float) := steady_const (arithmetic (.binary op left right) op a b)
  have hright (a : Float) := (steady_number right).bind (hconst a)
  rw [ends_iff_of_wrap fun p => by rw [meaning]; rfl]
  simp only [reaches_bind_iff (steady_number left) hright,
    reaches_bind_iff (steady_number right) (hconst _), reaches_const_iff]
  refine exists_congr fun x => and_congr_left fun _ => ⟨?_, fun h => ?_⟩
  · rintro (⟨e, hl, rfl⟩ | ⟨a, t, hl, ⟨e, hr, rfl⟩ | ⟨b, v, hr, hx⟩⟩)
    · exact .left hl
    · exact .right hl hr
    · exact .both hl hr hx
  · cases h with
    | left hl => exact .inl ⟨_, hl, rfl⟩
    | right hl hr => exact .inr ⟨_, _, hl, .inl ⟨_, hr, rfl⟩⟩
    | both hl hr hx => exact .inr ⟨_, _, hl, .inr ⟨_, _, hr, hx⟩⟩

theorem Computes.exists_left {x : Except EvalError Float} (h : Computes op left right s x u) :
    ∃ r t, EndsAsNumber left s r t := by
  cases h with
  | left hl | right hl | both hl => exact ⟨_, _, hl⟩

/-- Arithmetic waits for an operand exactly if its evaluation does not end. -/
theorem exists_endsAsNumber_iff :
    (∃ r u, EndsAsNumber n s r u) ↔ ∃ r u, Ends n s r u := by
  constructor
  · rintro ⟨r, u, h⟩
    obtain ⟨r', h', -⟩ := endsAsNumber_iff.mp h
    exact ⟨r', u, h'⟩
  · rintro ⟨r, u, h⟩
    exact ⟨_, u, endsAsNumber_iff.mpr ⟨r, h, rfl⟩⟩

/--
Every tree is evaluated alike as an operand and as a statement: it has the same number as its value,
it fails with the same error, and with a value that is no number it fails with a type mismatch, in
each case in the same state. As the left operand of an operation it is evaluated first, and what
makes it no number is the failure of the operation, whatever the right operand is.
-/
theorem endsAsNumber_agrees (n : Node) (s : State) :
    (∀ f u, EndsAsNumber n s (.ok f) u ↔ Ends n s (.ok (.number f)) u) ∧
      (∀ e u, Ends n s (.error e) u → EndsAsNumber n s (.error e) u) ∧
      (∀ v u, Ends n s (.ok v) u → (∀ f, v ≠ .number f) →
        ∃ e, e.cause = .typeMismatch ∧ EndsAsNumber n s (.error e) u) ∧
      ((∃ r u, EndsAsNumber n s r u) ↔ ∃ r u, Ends n s r u) ∧
      ∀ op,
        (∀ right r u, Ends (.binary op n right) s r u ↔
          ∃ x, Computes op n right s x u ∧ r = x.map .number) ∧
        (∀ e u, Ends n s (.error e) u → ∀ right, Ends (.binary op n right) s (.error e) u) ∧
        (∀ v u, Ends n s (.ok v) u → (∀ f, v ≠ .number f) →
          ∃ e, e.cause = .typeMismatch ∧ ∀ right, Ends (.binary op n right) s (.error e) u) ∧
        ((¬ ∃ r u, Ends n s r u) → ∀ right, ¬ ∃ r u, Ends (.binary op n right) s r u) := by
  have hfailed {e : EvalError} {u : State} (h : Ends n s (.error e) u) :
      EndsAsNumber n s (.error e) u := endsAsNumber_error_iff.mpr (.inl h)
  have hother {v : Value} {u : State} (h : Ends n s (.ok v) u) (hv : ∀ f, v ≠ .number f) :
      EndsAsNumber n s (.error (operandError n v)) u :=
    endsAsNumber_error_iff.mpr (.inr ⟨v, h, hv, rfl⟩)
  have hleft {op : Token.Kind} {e : EvalError} {u : State} (h : EndsAsNumber n s (.error e) u)
      (right : Node) : Ends (.binary op n right) s (.error e) u :=
    ends_binary_iff.mpr ⟨_, .left h, rfl⟩
  refine ⟨fun f u => endsAsNumber_ok_iff, fun e u h => hfailed h,
    fun v u h hv => ⟨_, cause_operandError n v, hother h hv⟩, exists_endsAsNumber_iff,
    fun op => ⟨fun right r u => ends_binary_iff, fun e u h => hleft (hfailed h),
      fun v u h hv => ⟨_, cause_operandError n v, hleft (hother h hv)⟩, ?_⟩⟩
  rintro hn right ⟨r, u, h⟩
  obtain ⟨x, hx, -⟩ := ends_binary_iff.mp h
  exact hn (exists_endsAsNumber_iff.mp hx.exists_left)

theorem endsAsNumber_agrees_assignment :
    let n : Node := .assignment (some "y") (.literal "a" .none)
    let s : State := ⟨.empty, []⟩
    let u : State := ⟨⟨[("y", .literal "a")]⟩, []⟩
    Ends n s (.ok (.assignment "y" (.literal "a"))) u ∧
      (∃ e, e.cause = .typeMismatch ∧ EndsAsNumber n s (.error e) u) ∧
      ∃ e, e.cause = .typeMismatch ∧ ∀ right, Ends (.binary .add n right) s (.error e) u := by
  intro n s u
  have h : Ends n s (.ok (.assignment "y" (.literal "a"))) u := ⟨0, rfl⟩
  have hv : ∀ f, Value.assignment "y" (.literal "a") ≠ .number f := nofun
  obtain ⟨-, -, hother, -, hleft⟩ := endsAsNumber_agrees n s
  exact ⟨h, hother _ u h hv, (hleft .add).2.2.1 _ u h hv⟩

end Scriptlet.Evaluation
