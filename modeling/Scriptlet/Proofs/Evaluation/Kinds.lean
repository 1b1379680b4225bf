import Scriptlet.Proofs.Evaluation.Parts

/-!
# The kinds of results

Which kinds of value a node can have is seen from the node alone, also in trees that no text has, as
long as the variables hold values that can be stored, which every evaluation leaves so. A node that
ends without an error thus has a value, and so have all its parts: wherever the value of a part
cannot be used, and its kind is named in an error or a warning, there is a kind to name.

## Main definitions

* `Node.kinds`: the kinds of value that a node can have
* `Evaluation.Questions`: the value of a part cannot be used, and its kind is asked for
* `EvalError.value?`: the value whose kind an error names

## Main statements

* `Evaluation.exists_kind_of_ends`: the kind of a result is one of those of its node
* `Evaluation.Questions.reported`: what is questioned is named in an error or a warning
* `Evaluation.kinds_of_ends`: kinds follow the nodes, and each value that is questioned has one
-/

namespace Scriptlet

/-- The kinds of value that a node can have; it has none if the node cannot be evaluated. -/
def Node.kinds : Node → List Value.Kind
  | .number _ | .negative _ | .binary .. => [.number]
  | .literal .. => [.boolean, .literal]
  | .identifier _ => [.number, .literal, .boolean]
  | .assignment (some _) _ => [.assignment, .empty]
  | .condition .. => [.boolean]
  | .ifElse .. | .elseLink .. | .whileLoop .. => [.empty]
  | .missing | .assignment none _ | .endOfInput _ => []

/-- The value that cannot be used, whose kind is part of the message. -/
def EvalError.value? : EvalError → Option Value
  | notNumber _ v | badOperand _ v | badTest _ v | unassignable _ _ v => some v
  | undefined _ | refused .. | noTarget _ | badOperator .. | badNode _ | noNode => none

theorem Value.exists_kind_of_isStorable {v : Value} (h : v.isStorable) :
    ∃ k ∈ [Kind.number, .literal, .boolean], v.kind? = some k := by
  cases v with
  | number | literal | boolean => simp [kind?]
  | assignment | empty | absent => cases h

namespace Evaluation

variable {n m : Node} {s t u : State} {v : Value} {e : EvalError} {p q : Node × State}

theorem Ends.storable {r : Except EvalError Value} (h : Ends n s r u) (hs : s.env.Storable) :
    u.env.Storable := by
  obtain ⟨c, hc, rfl⟩ := h.exists_change
  exact hc.storable_apply hs

/-! ## Results -/

theorem eq_empty_of_ends_conditional {c : Conditional} (h : Ends c.node s (.ok v) u) :
    v = .empty := by
  obtain ⟨r, -, heq⟩ := ends_conditional_iff_selects.mp h
  obtain ⟨-, -, rfl⟩ := exists_of_ok_eq_map heq
  rfl

theorem eq_empty_of_ends_whileLoop {test : Node} {body : List Node}
    (h : Ends (.whileLoop test body) s (.ok v) u) : v = .empty := by
  by_cases hm : test = .missing
  · subst hm
    cases (ends_whileLoop_missing_iff.mp h).1
    rfl
  · obtain ⟨r, -, heq⟩ := (ends_whileLoop_iff hm).mp h
    obtain ⟨-, -, rfl⟩ := exists_of_ok_eq_map heq
    rfl

/-- The value of an assignment was found first; it was bound, or it is what the warning is about. -/
theorem exists_assigned_of_ends {x : String} {e : Node}
    (h : Ends (.assignment (some x) e) s (.ok v) u) :
    ∃ w t, Ends e s (.ok w) t ∧ Assigned (.assignment (some x) e) x w t v u := by
  rcases ends_assignment_iff.mp h with ⟨err, -, heq⟩ | ⟨w, t, hw, v', ha, heq⟩
  · cases heq
  · cases heq
    exact ⟨w, t, hw, ha⟩

/-- The kind of a result is one of those of its node; only a variable has what was stored in it. -/
theorem exists_kind_of_ends (hs : s.env.Storable) (h : Ends n s (.ok v) u) :
    ∃ k ∈ n.kinds, v.kind? = some k := by
  cases n with
  | missing => cases (ends_missing_iff.mp h).1
  | endOfInput => cases (ends_endOfInput_iff.mp h).1
  | number =>
    cases (ends_number_iff.mp h).1
    exact ⟨_, List.mem_singleton_self _, rfl⟩
  | literal text k =>
    cases (ends_literal_iff.mp h).1
    cases k <;> simp [literalValue, Node.kinds, Value.kind?]
  | identifier x =>
    obtain ⟨⟨w, hw, heq⟩ | ⟨-, heq⟩, -⟩ := ends_identifier_iff.mp h
    · cases heq
      exact Value.exists_kind_of_isStorable (hs x v hw)
    · cases heq
  | negative =>
    obtain ⟨x, -, heq⟩ := ends_negative_iff.mp h
    obtain ⟨f, -, rfl⟩ := exists_of_ok_eq_map heq
    exact ⟨_, List.mem_singleton_self _, rfl⟩
  | binary =>
    obtain ⟨x, -, heq⟩ := ends_binary_iff.mp h
    obtain ⟨f, -, rfl⟩ := exists_of_ok_eq_map heq
    exact ⟨_, List.mem_singleton_self _, rfl⟩
  | assignment target value =>
    cases target with
    | none => cases (ends_assignment_none_iff.mp h).1
    | some x =>
      obtain ⟨w, t, -, ha⟩ := exists_assigned_of_ends h
      cases ha <;> simp [Node.kinds, Value.kind?]
  | condition l r =>
    rcases ends_condition_iff.mp h with ⟨e, -, heq⟩ | ⟨a, t, -, ⟨e, -, heq⟩ | ⟨b, -, heq⟩⟩
    · cases heq
    · cases heq
    · cases heq
      exact ⟨_, List.mem_singleton_self _, rfl⟩
  | ifElse test body rest =>
    cases eq_empty_of_ends_conditional (c := .ifElse test body rest) h
    exact ⟨_, List.mem_singleton_self _, rfl⟩
  | elseLink test body rest =>
    cases eq_empty_of_ends_conditional (c := .elseLink test body rest) h
    exact ⟨_, List.mem_singleton_self _, rfl⟩
  | whileLoop =>
    cases eq_empty_of_ends_whileLoop h
    exact ⟨_, List.mem_singleton_self _, rfl⟩

theorem ne_absent_of_ends (hs : s.env.Storable) (h : Ends n s (.ok v) u) : v ≠ .absent := by
  rintro rfl
  obtain ⟨k, -, hk⟩ := exists_kind_of_ends hs h
  cases hk

/-! ## Values that cannot be used -/

/--
The evaluation of the node finds `v` as the value of a part, where that cannot be used: its kind is
asked for, since the error or the warning that is made of it names it.
-/
def Questions (p : Node × State) (v : Value) : Prop :=
  ∃ use m t u, Enters use p (m, t) ∧ Ends m t (.ok v) u ∧ ¬ use.Accepts v

theorem Questions.ne_absent (hp : p.2.env.Storable) (h : Questions p v) : v ≠ .absent := by
  obtain ⟨use, m, t, u, henters, hm, -⟩ := h
  have ht : t.env.Storable := henters.preserves Ends.storable hp
  exact ne_absent_of_ends ht hm

theorem Raises.questions (h : Raises p e u) (hv : e.value? = some v) : Questions p v := by
  cases h with
  | @operand _ m t u w h hm hw =>
    have hvalue : (operandError m w).value? = some w := by
      cases m <;> rfl
    cases hvalue.symm.trans hv
    exact ⟨_, _, _, _, h, hm, hw⟩
  | test h hm hw =>
    cases hv
    exact ⟨_, _, _, _, h, hm, hw⟩
  | undefined | operator | noTarget | badNode | noNode => cases hv

/-- Who questions a value fails with an error that names its kind, or warns of it. -/
theorem Questions.reported (h : Questions p v) :
    (∃ e u, Ends p.1 p.2 (.error e) u ∧ e.value? = some v) ∨
      ∃ x e, ∃ t : State, p.1 = .assignment (some x) e ∧
        Ends p.1 p.2 (.ok .empty) { t with warnings := t.warnings ++ [.unassignable p.1 x v] } := by
  obtain ⟨use, m, t, u, henters, hm, hv⟩ := h
  cases use with
  | operand =>
    refine .inl ⟨_, _, (Raises.operand henters hm hv).ends, ?_⟩
    cases m <;> rfl
  | test => exact .inl ⟨_, _, (Raises.test henters hm hv).ends, rfl⟩
  | free => exact absurd trivial hv
  | binding =>
    cases henters with
    | @assigned x =>
      exact .inr ⟨x, m, u, rfl, ends_assignment_iff.mpr (.inr ⟨v, u, hm, _, .warned hv, rfl⟩)⟩

/--
In a state whose variables hold storable values, every tree that ends without an error has a value
of a kind that its node can have. An assignment either has bound a storable value, or it has added one
warning to those that the evaluation of its value added. No value is missing wherever the evaluation
asks for the kind of one, in the node itself or in what it comes to enter, and none is in an error.
-/
theorem kinds_of_ends {s : State} (hs : s.env.Storable) (n : Node) :
    (∀ v u, Ends n s (.ok v) u → v ≠ .absent ∧ ∃ k ∈ n.kinds, v.kind? = some k) ∧
      (∀ x e v u, n = .assignment (some x) e → Ends n s (.ok v) u →
        ∃ w t added, Ends e s (.ok w) t ∧ t.warnings = s.warnings ++ added ∧
          Assigned n x w t v u) ∧
      (∀ q, Involves (n, s) q → ∀ v, Questions q v → v ≠ .absent) ∧
      ∀ e u, Ends n s (.error e) u → e.value? ≠ some .absent := by
  refine ⟨fun v u h => ⟨ne_absent_of_ends hs h, exists_kind_of_ends hs h⟩, ?_, ?_, ?_⟩
  · rintro x e v u rfl h
    obtain ⟨w, t, hw, ha⟩ := exists_assigned_of_ends h
    obtain ⟨c, -, rfl⟩ := hw.exists_change
    exact ⟨w, _, c.warnings, hw, rfl, ha⟩
  · intro q hq v hv
    exact hv.ne_absent (hq.preserves Ends.storable hs)
  · intro e u h he
    obtain ⟨q, hq, hraises⟩ := ends_error_iff.mp h
    have hstorable : q.2.env.Storable := hq.preserves Ends.storable hs
    exact (hraises.questions he).ne_absent hstorable rfl

/-- A branch without a test has no value that could be stored, so it is questioned and warned of. -/
theorem kinds_of_ends_warned :
    let e : Node := .ifElse .missing []
      (.link .missing [.assignment (some "c") (.identifier "a")] .done)
    let n : Node := .assignment (some "b") e
    let s : State := ⟨⟨[("a", .boolean true)]⟩, [.undefined "z"]⟩
    let u : State := ⟨⟨[("a", .boolean true), ("c", .boolean true)]⟩,
      [.undefined "z", .unassignable n "b" .empty]⟩
    s.env.Storable ∧ Ends n s (.ok .empty) u ∧ (∃ k ∈ n.kinds, Value.empty.kind? = some k) ∧
      (∃ w t added, Ends e s (.ok w) t ∧ t.warnings = s.warnings ++ added ∧
        Assigned n "b" w t .empty u) ∧
      Questions (n, s) .empty ∧ Value.empty ≠ .absent := by
  intro e n s u
  have hs : s.env.Storable := by
    have hnew : ∀ b ∈ [("a", Value.boolean true)], b.2.isStorable := by decide
    exact Environment.storable_empty.insertAll hnew
  have h : Ends n s (.ok .empty) u := ⟨0, rfl⟩
  have he : Ends e s (.ok .empty) { u with warnings := [.undefined "z"] } := ⟨0, rfl⟩
  have hquestions : Questions (n, s) .empty :=
    ⟨.binding, e, s, _, .assigned, he, Bool.false_ne_true⟩
  obtain ⟨hkinds, hassigned, hvalues, -⟩ := kinds_of_ends hs n
  exact ⟨hs, h, (hkinds _ u h).2, hassigned "b" e _ u rfl h, hquestions,
    hvalues _ .refl _ hquestions⟩

end Evaluation

end Scriptlet
