import Scriptlet.Proofs.Evaluation.Branching
import Scriptlet.Proofs.Evaluation.Iteration
import Scriptlet.Proofs.Evaluation.Operands

/-!
# The parts of an evaluation

An evaluation is made of evaluations of parts: of operands and sides, of tests, and of the
statements of blocks. Each of them is entered in the state that those before it left, so what every
evaluation preserves holds wherever a part is entered, also if the whole never comes to an end. An
error is raised by one node, and the nodes around it pass it on without touching the state any more.

## Main definitions

* `Evaluation.Use`: what a node does with the value of a part
* `Evaluation.Enters`: the evaluation of a node enters that of a part
* `Evaluation.Involves`: the same for parts of parts
* `Evaluation.Raises`: the errors that a node raises by itself

## Main statements

* `Evaluation.Enters.subtrees_infix`: the parts of a node are proper subtrees of it
* `Evaluation.Enters.preserves`: what every evaluation preserves holds where a part is entered
* `Evaluation.ends_error_iff`: an evaluation fails as one of the nodes that are involved does
-/

namespace Scriptlet.Evaluation

variable {n m : Node} {s t u : State} {e : EvalError} {p q : Node × State} {use : Use}

/-- What a node does with the value of a part. -/
inductive Use where
  | operand
  | test
  | binding
  /-- The value is compared with another one, or it is dropped. -/
  | free

/-- The values that can be used in this way. -/
def Use.Accepts : Use → Value → Prop
  | operand, v => ∃ f, v = .number f
  | test, v => ∃ b, v = .boolean b
  | binding, v => v.isStorable
  | free, _ => True

/-- The statement `m` of a block has its turn in `t`, after all statements in front of it. -/
def Turn (body : List Node) (s : State) (m : Node) (t : State) : Prop :=
  ∃ before after, body = before ++ m :: after ∧ Runs before s (.ok ()) t

/--
The evaluation of a node, from a state, enters that of a part of it, from the state that the parts
before it left, and puts the value of the part to a use.
-/
inductive Enters : Use → Node × State → Node × State → Prop where
  | negated {e : Node} {s : State} : Enters .operand (.negative e, s) (e, s)
  | left {op : Token.Kind} {l r : Node} {s : State} : Enters .operand (.binary op l r, s) (l, s)
  | right {op : Token.Kind} {l r : Node} {s t : State} {a : Float}
      (hl : Ends l s (.ok (.number a)) t) : Enters .operand (.binary op l r, s) (r, t)
  | assigned {x : String} {e : Node} {s : State} :
      Enters .binding (.assignment (some x) e, s) (e, s)
  | compared {l r : Node} {s : State} : Enters .free (.condition l r, s) (l, s)
  | comparedWith {l r : Node} {s t : State} {v : Value} (hl : Ends l s (.ok v) t) :
      Enters .free (.condition l r, s) (r, t)
  | guard {c : Conditional} {earlier later : List Branch} {test : Node} {body : List Node}
      {s t : State} (hb : c.branches = earlier ++ ⟨some test, body⟩ :: later)
      (hd : Declined earlier s t) (hm : test ≠ .missing) : Enters .test (c.node, s) (test, t)
  | branch {c : Conditional} {earlier later : List Branch} {b : Branch} {m : Node}
      {s t v u : State} (hb : c.branches = earlier ++ b :: later) (hd : Declined earlier s t)
      (ho : b.Opens t v) (ht : Turn b.body v m u) : Enters .free (c.node, s) (m, u)
  | loopTest {test : Node} {body : List Node} {s : State} {k : Nat} {states : Nat → State}
      (hp : Passes test body s k states) (hm : test ≠ .missing) :
      Enters .test (.whileLoop test body, s) (test, states k)
  | loopBody {test m : Node} {body : List Node} {s t u : State} {k : Nat} {states : Nat → State}
      (hp : Passes test body s k states) (h : Tests test (states k) (.ok true) t)
      (ht : Turn body t m u) : Enters .free (.whileLoop test body, s) (m, u)

/-- The evaluation of a node comes to enter that of a part, or of a part of a part, and so on. -/
def Involves : Node × State → Node × State → Prop :=
  Relation.ReflTransGen fun p q => ∃ use, Enters use p q

/-! ## Results -/

theorem exists_of_ok_eq_map {ε α β : Type} {x : Except ε α} {f : α → β} {b : β}
    (h : Except.ok b = x.map f) : ∃ a, x = .ok a ∧ f a = b := by
  cases x with
  | error => cases h
  | ok a => exact ⟨a, rfl, (Except.ok.inj h).symm⟩

theorem eq_error_of_error_eq_map {ε α β : Type} {x : Except ε α} {f : α → β} {e : ε}
    (h : Except.error e = x.map f) : x = .error e := by
  cases x with
  | error => cases h; rfl
  | ok => cases h

/-! ## Parts are subtrees -/

theorem Turn.subtrees_infix {body : List Node} (h : Turn body s m t) :
    m.subtrees <:+: Node.subtreesAll body := by
  obtain ⟨before, after, rfl, -⟩ := h
  rw [Node.subtreesAll_append, Node.subtreesAll]
  exact List.infix_append' _ _ _

/-- The trees in a branch; one without a guard comes from a link with a hole. -/
def Branch.subtrees (b : Branch) : List Node :=
  (b.guard.getD .missing).subtrees ++ Node.subtreesAll b.body

theorem Branch.subtrees_ofLink (test : Node) (body : List Node) :
    (ofLink test body).subtrees = test.subtrees ++ Node.subtreesAll body := by
  by_cases hm : test = .missing
  · subst hm
    rfl
  · rw [ofLink_of_ne hm]
    rfl

theorem flatMap_toBranches : ∀ rest : Chain, rest.toBranches.flatMap Branch.subtrees = rest.subtrees
  | .done => rfl
  | .link test body rest => by
    rw [Chain.toBranches, List.flatMap_cons, Branch.subtrees_ofLink, flatMap_toBranches rest,
      Chain.subtrees]

theorem Conditional.subtrees_node (c : Conditional) :
    c.node.subtrees = c.node :: c.branches.flatMap Branch.subtrees := by
  cases c with
  | ifElse test body rest =>
    rw [node, branches, List.flatMap_cons, flatMap_toBranches, Node.subtrees]
    rfl
  | elseLink test body rest =>
    rw [node, branches, List.flatMap_cons, flatMap_toBranches, Branch.subtrees_ofLink, Node.subtrees]

theorem Branch.subtrees_infix {c : Conditional} {earlier later : List Branch} {b : Branch}
    (h : c.branches = earlier ++ b :: later) : b.subtrees <:+: c.node.subtrees.tail := by
  rw [c.subtrees_node, List.tail_cons, h, List.flatMap_append, List.flatMap_cons]
  exact List.infix_append' _ _ _

/-- The parts of a node are proper subtrees of it. -/
theorem Enters.subtrees_infix (h : Enters use p q) : q.1.subtrees <:+: p.1.subtrees.tail := by
  cases h with
  | negated | assigned => exact List.infix_rfl
  | left | compared => exact (List.prefix_append _ _).isInfix
  | right | comparedWith => exact (List.suffix_append _ _).isInfix
  | guard hb => exact (List.prefix_append _ _).isInfix.trans (Branch.subtrees_infix hb)
  | @branch c _ _ b _ _ _ _ _ hb _ _ ht =>
    have hbody : Node.subtreesAll b.body <:+: b.subtrees := (List.suffix_append _ _).isInfix
    exact (ht.subtrees_infix.trans hbody).trans (Branch.subtrees_infix hb)
  | loopTest => exact (List.prefix_append _ _).isInfix
  | loopBody _ _ ht => exact ht.subtrees_infix.trans (List.suffix_append _ _).isInfix

theorem Enters.length_lt (h : Enters use p q) : q.1.subtrees.length < p.1.subtrees.length := by
  have hle := h.subtrees_infix.length_le
  have hpos : 0 < p.1.subtrees.length := by
    rcases p with ⟨n, s⟩
    cases n <;> simp
  rw [List.length_tail] at hle
  omega

theorem Involves.subtrees_subset (h : Involves p q) : q.1.subtrees ⊆ p.1.subtrees := by
  induction h with
  | refl => exact List.Subset.refl _
  | tail _ h ih =>
    obtain ⟨use, h⟩ := h
    exact fun x hx => ih (List.tail_subset _ (h.subtrees_infix.subset hx))

/-! ## What evaluations preserve -/

section Preserves

variable {inv : State → Prop}
  (hinv : ∀ {n : Node} {s u : State} {r : Except EvalError Value}, Ends n s r u → inv s → inv u)

include hinv

theorem Tests.preserves {r : Except EvalError Bool} (h : Tests n s r u) (hs : inv s) : inv u := by
  cases h with
  | missing => exact hs
  | boolean h | other h | failed _ h => exact hinv h hs

theorem Runs.preserves {body : List Node} {r : Except EvalError Unit} (h : Runs body s r u)
    (hs : inv s) : inv u := by
  induction h with
  | nil => exact hs
  | cons h _ ih => exact ih (hinv h hs)
  | failed h => exact hinv h hs

theorem Turn.preserves {body : List Node} (h : Turn body s m t) (hs : inv s) : inv t := by
  obtain ⟨before, after, -, hr⟩ := h
  exact hr.preserves hinv hs

theorem Declined.preserves {bs : List Branch} (h : Declined bs s t) (hs : inv s) : inv t := by
  induction h with
  | nil => exact hs
  | cons h _ ih => exact ih (h.preserves hinv hs)

theorem Branch.Opens.preserves {b : Branch} (h : b.Opens s t) (hs : inv s) : inv t := by
  cases h with
  | unguarded => exact hs
  | guarded h => exact h.preserves hinv hs

theorem Passes.preserves {test : Node} {body : List Node} {k : Nat} {states : Nat → State}
    (h : Passes test body s k states) (hs : inv s) : inv (states k) := by
  have hstates : ∀ i ≤ k, inv (states i) := by
    intro i hi
    induction i with
    | zero => rwa [h.start]
    | succ i ih =>
      obtain ⟨v, ht, hr⟩ := h.pass i hi
      exact hr.preserves hinv (ht.preserves hinv (ih (by omega)))
  exact hstates k le_rfl

/-- What every evaluation preserves holds where a part is entered. -/
theorem Enters.preserves (h : Enters use p q) (hp : inv p.2) : inv q.2 := by
  cases h with
  | negated | left | assigned | compared => exact hp
  | right hl | comparedWith hl => exact hinv hl hp
  | guard _ hd => exact hd.preserves hinv hp
  | branch _ hd ho ht =>
    exact ht.preserves hinv (ho.preserves hinv (hd.preserves hinv hp))
  | loopTest hs => exact hs.preserves hinv hp
  | loopBody hs h ht => exact ht.preserves hinv (h.preserves hinv (hs.preserves hinv hp))

theorem Involves.preserves (h : Involves p q) (hp : inv p.2) : inv q.2 := by
  induction h with
  | refl => exact hp
  | tail _ h ih =>
    obtain ⟨use, h⟩ := h
    exact h.preserves hinv ih

end Preserves

/-! ## Errors -/

/-- The errors that a node raises by itself, given how its parts end. -/
inductive Raises : Node × State → EvalError → State → Prop where
  | undefined {x : String} {s : State} (h : s.env.get? x = none) :
      Raises (.identifier x, s) (.undefined x) s
  | operand {p : Node × State} {m : Node} {t u : State} {v : Value}
      (h : Enters .operand p (m, t)) (hm : Ends m t (.ok v) u) (hv : ¬ Use.operand.Accepts v) :
      Raises p (operandError m v) u
  | test {p : Node × State} {m : Node} {t u : State} {v : Value} (h : Enters .test p (m, t))
      (hm : Ends m t (.ok v) u) (hv : ¬ Use.test.Accepts v) : Raises p (.badTest m v) u
  | operator {op : Token.Kind} {l r : Node} {s t u : State} {a b : Float}
      (hl : Ends l s (.ok (.number a)) t) (hr : Ends r t (.ok (.number b)) u)
      (ho : op.isArithmetic = false) :
      Raises (.binary op l r, s) (.badOperator (.binary op l r) op) u
  | noTarget {e : Node} {s : State} :
      Raises (.assignment none e, s) (.noTarget (.assignment none e)) s
  | badNode {text : String} {s : State} :
      Raises (.endOfInput text, s) (.badNode (.endOfInput text)) s
  | noNode {s : State} : Raises (.missing, s) .noNode s

/-- The error is raised by the node itself, or a part of it ends with it. -/
def Blames (p : Node × State) (e : EvalError) (u : State) : Prop :=
  Raises p e u ∨ ∃ use q, Enters use p q ∧ Ends q.1 q.2 (.error e) u

theorem Enters.blames (h : Enters use p (m, t)) (he : Ends m t (.error e) u) : Blames p e u :=
  .inr ⟨use, _, h, he⟩

theorem Enters.blames_operand (h : Enters .operand p (m, t)) (he : EndsAsNumber m t (.error e) u) :
    Blames p e u := by
  rcases endsAsNumber_error_iff.mp he with he | ⟨v, hm, hv, rfl⟩
  · exact h.blames he
  · exact .inl (.operand h hm fun ⟨f, hf⟩ => hv f hf)

theorem Runs.exists_turn {body : List Node} (h : Runs body s (.error e) u) :
    ∃ m t, Turn body s m t ∧ Ends m t (.error e) u := by
  induction body generalizing s with
  | nil => cases h
  | cons n ns ih =>
    cases h with
    | failed h => exact ⟨n, s, ⟨[], ns, rfl, .nil⟩, h⟩
    | cons hn h =>
      obtain ⟨m, t, ⟨before, after, rfl, hr⟩, he⟩ := ih h
      exact ⟨m, t, ⟨n :: before, after, rfl, .cons hn hr⟩, he⟩

/-- The test of a branch or loop fails with its own error, or its value is no boolean. -/
theorem Tests.blames (ht : Tests m t (.error e) u) (h : m ≠ .missing → Enters .test p (m, t)) :
    Blames p e u := by
  cases ht with
  | failed hm he => exact (h hm).blames he
  | @other _ _ _ v hm hv =>
    have hne : m ≠ .missing := by
      rintro rfl
      exact not_ends_missing_ok hm
    exact .inl (.test (h hne) hm fun ⟨b, hb⟩ => hv b hb)

theorem Selects.blames {c : Conditional} (h : Selects c.branches s (.error e) u) :
    Blames (c.node, s) e u := by
  cases h with
  | taken hb hd ho hr =>
    obtain ⟨m, t, ht, he⟩ := hr.exists_turn
    exact (Enters.branch hb hd ho ht).blames he
  | failed hb hd ht => exact ht.blames fun hm => .guard hb hd hm

theorem Iterates.blames {test : Node} {body : List Node}
    (h : Iterates test body s (.error e) u) : Blames (.whileLoop test body, s) e u := by
  obtain ⟨k, states, hp, hstop⟩ := iterates_iff.mp h
  cases hstop with
  | testFailed ht => exact ht.blames fun hm => .loopTest hp hm
  | bodyFailed ht hr =>
    obtain ⟨m, t, hm, he⟩ := hr.exists_turn
    exact (Enters.loopBody hp ht hm).blames he

theorem blames_conditional {c : Conditional} (h : Ends c.node s (.error e) u) :
    Blames (c.node, s) e u := by
  obtain ⟨r, hr, heq⟩ := ends_conditional_iff_selects.mp h
  obtain rfl := eq_error_of_error_eq_map heq
  exact hr.blames

/-- Arithmetic fails only for what is no operator, and it never changes the state. -/
theorem arithmetic_eq_error {op : Token.Kind} {a b : Float}
    (h : arithmetic n op a b s = .ended (.error e) u) :
    op.isArithmetic = false ∧ e = .badOperator n op ∧ u = s := by
  cases ho : op.isArithmetic with
  | true => cases op <;> cases ho <;> cases h
  | false => cases op <;> cases ho <;> cases h <;> exact ⟨rfl, rfl, rfl⟩

/-- One step towards the node that raised an error. -/
theorem blames_of_ends (h : Ends n s (.error e) u) : Blames (n, s) e u := by
  cases n with
  | missing =>
    obtain ⟨he, rfl⟩ := ends_missing_iff.mp h
    cases he
    exact .inl .noNode
  | number => cases (ends_number_iff.mp h).1
  | literal => cases (ends_literal_iff.mp h).1
  | endOfInput =>
    obtain ⟨he, rfl⟩ := ends_endOfInput_iff.mp h
    cases he
    exact .inl .badNode
  | identifier x =>
    obtain ⟨⟨v, -, he⟩ | ⟨hx, he⟩, rfl⟩ := ends_identifier_iff.mp h
    · cases he
    · cases he
      exact .inl (.undefined hx)
  | negative operand =>
    obtain ⟨x, hx, heq⟩ := ends_negative_iff.mp h
    obtain rfl := eq_error_of_error_eq_map heq
    exact Enters.negated.blames_operand hx
  | binary op l r =>
    obtain ⟨x, hx, heq⟩ := ends_binary_iff.mp h
    obtain rfl := eq_error_of_error_eq_map heq
    cases hx with
    | left hl => exact Enters.left.blames_operand hl
    | right hl hr => exact (Enters.right (endsAsNumber_ok_iff.mp hl)).blames_operand hr
    | both hl hr hx =>
      obtain ⟨ho, rfl, rfl⟩ := arithmetic_eq_error hx
      exact .inl (.operator (endsAsNumber_ok_iff.mp hl) (endsAsNumber_ok_iff.mp hr) ho)
  | assignment target value =>
    cases target with
    | none =>
      obtain ⟨he, rfl⟩ := ends_assignment_none_iff.mp h
      cases he
      exact .inl .noTarget
    | some x =>
      rcases ends_assignment_iff.mp h with ⟨e', he, heq⟩ | ⟨v, t, -, w, -, heq⟩
      · cases heq
        exact Enters.assigned.blames he
      · cases heq
  | condition l r =>
    rcases ends_condition_iff.mp h with ⟨e', he, heq⟩ | ⟨v, t, hl, ⟨e', he, heq⟩ | ⟨w, -, heq⟩⟩
    · cases heq
      exact Enters.compared.blames he
    · cases heq
      exact (Enters.comparedWith hl).blames he
    · cases heq
  | ifElse test body rest => exact blames_conditional (c := .ifElse test body rest) h
  | elseLink test body rest => exact blames_conditional (c := .elseLink test body rest) h
  | whileLoop test body =>
    by_cases hm : test = .missing
    · subst hm
      cases (ends_whileLoop_missing_iff.mp h).1
    · obtain ⟨r, hr, heq⟩ := (ends_whileLoop_iff hm).mp h
      obtain rfl := eq_error_of_error_eq_map heq
      exact hr.blames

/-- What fails as an operand is the failure of the node around it. -/
theorem Enters.ends_of_operand (h : Enters .operand p (m, t))
    (he : EndsAsNumber m t (.error e) u) : Ends p.1 p.2 (.error e) u := by
  cases h with
  | negated => exact ends_negative_iff.mpr ⟨_, he, rfl⟩
  | left => exact ends_binary_iff.mpr ⟨_, .left he, rfl⟩
  | right hl => exact ends_binary_iff.mpr ⟨_, .right (endsAsNumber_ok_iff.mpr hl) he, rfl⟩

/-- What fails as a test is the failure of the node around it. -/
theorem Enters.ends_of_test (h : Enters .test p (m, t)) (he : Tests m t (.error e) u) :
    Ends p.1 p.2 (.error e) u := by
  cases h with
  | guard hb hd => exact ends_conditional_iff_selects.mpr ⟨_, .failed hb hd he, rfl⟩
  | loopTest hp hm =>
    exact (ends_whileLoop_iff hm).mpr ⟨_, iterates_iff.mpr ⟨_, _, hp, .testFailed he⟩, rfl⟩

theorem Turn.runs_error {body : List Node} (h : Turn body s m t) (he : Ends m t (.error e) u) :
    Runs body s (.error e) u := by
  obtain ⟨before, after, rfl, hr⟩ := h
  exact runs_append_iff.mpr (.inr ⟨t, hr, .failed he⟩)

/-- A part that fails is the failure of the node around it. -/
theorem Enters.ends_of_error (h : Enters use p (m, t)) (he : Ends m t (.error e) u) :
    Ends p.1 p.2 (.error e) u := by
  cases use with
  | operand => exact h.ends_of_operand (endsAsNumber_error_iff.mpr (.inl he))
  | test =>
    have hm : m ≠ .missing := by
      cases h with
      | guard _ _ hm | loopTest _ hm => exact hm
    exact h.ends_of_test (.failed hm he)
  | binding =>
    cases h with
    | assigned => exact ends_assignment_iff.mpr (.inl ⟨e, he, rfl⟩)
  | free =>
    cases h with
    | compared => exact ends_condition_iff.mpr (.inl ⟨e, he, rfl⟩)
    | comparedWith hl => exact ends_condition_iff.mpr (.inr ⟨_, _, hl, .inl ⟨e, he, rfl⟩⟩)
    | branch hb hd ho ht =>
      exact ends_conditional_iff_selects.mpr ⟨_, .taken hb hd ho (ht.runs_error he), rfl⟩
    | @loopBody test _ body _ _ _ _ _ hp htest ht =>
      have hm : test ≠ .missing := by
        rintro rfl
        cases (tests_missing_iff.mp htest).1
      have hstop := Stops.bodyFailed htest (ht.runs_error he)
      exact (ends_whileLoop_iff hm).mpr ⟨_, iterates_iff.mpr ⟨_, _, hp, hstop⟩, rfl⟩

/-- A node ends with the errors that it raises. -/
theorem Raises.ends (h : Raises p e u) : Ends p.1 p.2 (.error e) u := by
  cases h with
  | undefined hx => exact ends_identifier_iff.mpr ⟨.inr ⟨hx, rfl⟩, rfl⟩
  | operand h hm hv =>
    exact h.ends_of_operand (endsAsNumber_error_iff.mpr
      (.inr ⟨_, hm, fun f hf => hv ⟨f, hf⟩, rfl⟩))
  | test h hm hv => exact h.ends_of_test (.other hm fun b hb => hv ⟨b, hb⟩)
  | @operator op l r s t u a b hl hr ho =>
    have hfail : arithmetic (.binary op l r) op a b u =
        .ended (.error (.badOperator (.binary op l r) op)) u := by
      cases op <;> first | rfl | cases ho
    exact ends_binary_iff.mpr
      ⟨_, .both (endsAsNumber_ok_iff.mpr hl) (endsAsNumber_ok_iff.mpr hr) hfail, rfl⟩
  | noTarget => exact ends_assignment_none_iff.mpr ⟨rfl, rfl⟩
  | badNode => exact ends_endOfInput_iff.mpr ⟨rfl, rfl⟩
  | noNode => exact ends_missing_iff.mpr ⟨rfl, rfl⟩

theorem exists_raises_of_ends {n : Node} {s : State} (h : Ends n s (.error e) u) :
    ∃ q, Involves (n, s) q ∧ Raises q e u := by
  rcases blames_of_ends h with hraises | ⟨use, ⟨m, t⟩, henters, he⟩
  · exact ⟨_, .refl, hraises⟩
  · have hlt : m.subtrees.length < n.subtrees.length := henters.length_lt
    obtain ⟨q, hq, hraises⟩ := exists_raises_of_ends he
    exact ⟨q, .head ⟨use, henters⟩ hq, hraises⟩
termination_by n.subtrees.length

/-- The error of a node that is involved is passed on by all the nodes around it. -/
theorem Involves.ends_of_raises (h : Involves p q) (hraises : Raises q e u) :
    Ends p.1 p.2 (.error e) u := by
  induction h using Relation.ReflTransGen.head_induction_on with
  | refl => exact hraises.ends
  | head h _ ih =>
    obtain ⟨use, h⟩ := h
    exact h.ends_of_error ih

/-- An evaluation fails exactly if a node that is involved raises an error, and it leaves the state
in which that happened. -/
theorem ends_error_iff : Ends n s (.error e) u ↔ ∃ q, Involves (n, s) q ∧ Raises q e u :=
  ⟨exists_raises_of_ends, fun ⟨_, hq, hraises⟩ => hq.ends_of_raises hraises⟩

end Scriptlet.Evaluation
