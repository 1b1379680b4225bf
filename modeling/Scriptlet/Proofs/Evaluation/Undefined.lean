import Scriptlet.Proofs.Evaluation.Parts
import Scriptlet.Proofs.Session.Trace

/-!
# Undefined variables

An evaluation blames a variable for being undefined only where it reads one that has no value. What
is bound stays bound, so the variable had no value at the start either, and it has none at the end:
the error leaves the state as the reading found it. A program that reads only bound names can thus
never fail in this way, whatever its branches and loops do.

## Main definitions

* `Node.reads`: the names that are read in a tree

## Main statements

* `Evaluation.exists_undefined_of_ends`: a variable that is blamed is read, and has no value
* `Evaluation.undefined_of_ends`: the same for trees, programs and the statements of a session
-/

namespace Scriptlet

/-- The names that are read in a tree. -/
def Node.reads (n : Node) : List String := n.subtrees.filterMap read?

theorem Node.mem_reads {n : Node} {x : String} : x ∈ n.reads ↔ .identifier x ∈ n.subtrees := by
  rw [reads, List.mem_filterMap]
  constructor
  · rintro ⟨m, hm, hx⟩
    cases m <;> cases hx
    exact hm
  · exact fun hm => ⟨_, hm, rfl⟩

namespace Evaluation

open Effect Session

variable {n : Node} {s t u : State} {e : EvalError} {p : Node × State} {passes : Nat}

/-- Only a variable that is read raises this error, in a state in which it has no value. -/
theorem Raises.exists_undefined (h : Raises p e u) (he : e.cause = .undefinedVariable) :
    ∃ x, p.1 = .identifier x ∧ e = .undefined x ∧ u.env.get? x = none := by
  cases h with
  | undefined hx => exact ⟨_, rfl, rfl, hx⟩
  | operand => cases (cause_operandError _ _).symm.trans he
  | test | operator | noTarget | badNode | noNode => cases he

/-- What is bound stays bound. -/
theorem Ends.isSome_get? {r : Except EvalError Value} (h : Ends n s r u) {x : String}
    (hx : (s.env.get? x).isSome) : (u.env.get? x).isSome := by
  obtain ⟨c, -, rfl⟩ := h.exists_change
  exact c.isSome_get?_apply hx

/-- The variable that is blamed is read in the tree, and it had no value in the first place. -/
theorem exists_undefined_of_ends (h : Ends n s (.error e) u) (he : e.cause = .undefinedVariable) :
    ∃ x ∈ n.reads, e = .undefined x ∧ s.env.get? x = none ∧ u.env.get? x = none := by
  obtain ⟨⟨m, t⟩, hinv, hraises⟩ := ends_error_iff.mp h
  obtain ⟨x, rfl, rfl, hu⟩ := hraises.exists_undefined he
  have hread : x ∈ n.reads := Node.mem_reads.mpr (hinv.subtrees_subset (by simp))
  have hs : s.env.get? x = none := by
    rw [← Option.not_isSome_iff_eq_none] at hu ⊢
    exact fun hs => hu (h.isSome_get? hs)
  exact ⟨x, hread, rfl, hs, hu⟩

/-! ## Programs -/

/-- All names that are read in the tree have a value. -/
def Covers (n : Node) (s : State) : Prop := ∀ x ∈ n.reads, (s.env.get? x).isSome

theorem Covers.of_ends {m : Node} {r : Except EvalError Value} (hm : Covers m s)
    (h : Ends n s r u) : Covers m u :=
  fun x hx => h.isSome_get? (hm x hx)

theorem Covers.cause_ne (hn : Covers n s) (h : Ends n s (.error e) u) :
    e.cause ≠ .undefinedVariable := by
  intro he
  obtain ⟨x, hx, -, hs, -⟩ := exists_undefined_of_ends h he
  simpa [hs] using hn x hx

theorem cause_ne_of_program_go {nodes : List Node} {last : Value}
    (hnodes : ∀ n ∈ nodes, Covers n s) (h : program.go passes last nodes s = .failed e u) :
    e.cause ≠ .undefinedVariable := by
  induction nodes generalizing s last with
  | nil => cases h
  | cons n ns ih =>
    obtain ⟨hn, hns⟩ := List.forall_mem_cons.mp hnodes
    have hgo : (evaluate passes n >>= fun v => program.go passes v ns) s = .ended (.error e) u := h
    rcases bind_eq_ended_iff.mp hgo with ⟨e', he, heq⟩ | ⟨v, t, hv, hrest⟩
    · cases heq
      exact hn.cause_ne ⟨passes, he⟩
    · exact ih (fun m hm => (hns m hm).of_ends ⟨passes, hv⟩) hrest

/-- A statement whose names have values keeps the names of all statements covered. -/
theorem preserves_covers {nodes : List Node} (hn : n ∈ nodes) :
    Preserves (fun s => ∀ m ∈ nodes, Covers m s)
      (fun step => ∀ e, step.result.outcome = .error e → e.cause ≠ .undefinedVariable) passes n := by
  intro s hs
  cases ho : evaluate passes n s with
  | done v u =>
    have h : Ends n s (.ok v) u := ⟨passes, ho⟩
    exact ⟨fun m hm => (hs m hm).of_ends h, fun e he => by cases he⟩
  | failed e u =>
    have h : Ends n s (.error e) u := ⟨passes, ho⟩
    refine ⟨fun m hm => (hs m hm).of_ends h, fun e' he => ?_⟩
    cases he
    exact (hs n hn).cause_ne h
  | unfinished => trivial

/--
A variable that an evaluation blames for being undefined is read in the tree, by the node to blame,
and has no value at the start or at the end. So if all names that are read in a list of statements
have values at the start, then running them does not fail in this way: neither as a program, nor
under a policy that goes on after other failures, however many passes the loops may make.
-/
theorem undefined_of_ends (s : State) :
    (∀ n e u, Ends n s (.error e) u → e.cause = .undefinedVariable →
      ∃ x, e.node = .identifier x ∧ .identifier x ∈ n.subtrees ∧
        s.env.get? x = none ∧ u.env.get? x = none) ∧
      ∀ nodes : List Node, (∀ n ∈ nodes, ∀ x ∈ n.reads, (s.env.get? x).isSome) →
        (∀ passes e u, program passes nodes s = .failed e u → e.cause ≠ .undefinedVariable) ∧
          ∀ cfg, ∀ step ∈ trace cfg nodes s, ∀ e, step.result.outcome = .error e →
            e.cause ≠ .undefinedVariable := by
  refine ⟨fun n e u h he => ?_, fun nodes hnodes => ⟨fun passes e u h => ?_, fun cfg step hm => ?_⟩⟩
  · obtain ⟨x, hx, rfl, hs, hu⟩ := exists_undefined_of_ends h he
    exact ⟨x, rfl, Node.mem_reads.mp hx, hs, hu⟩
  · exact cause_ne_of_program_go hnodes h
  · exact (forall_trace (fun n hn => preserves_covers hn) hnodes step hm).2

theorem undefined_of_ends_loop :
    let n : Node := .whileLoop (.identifier "a") [
      .ifElse (.identifier "b") [.assignment (some "c") (.negative (.identifier "z"))] .done,
      .assignment (some "b") (.literal "true" .true)]
    let s : State := ⟨⟨[("a", .boolean true), ("b", .boolean false)]⟩, []⟩
    let t : State := ⟨⟨[("a", .boolean true), ("b", .boolean false), ("z", .literal "k")]⟩, []⟩
    (∃ u, Ends n s (.error (.undefined "z")) u ∧ ∃ x, Node.identifier "z" = .identifier x ∧
        .identifier x ∈ n.subtrees ∧ s.env.get? x = none ∧ u.env.get? x = none) ∧
      (∀ m ∈ [n], ∀ x ∈ m.reads, (t.env.get? x).isSome) ∧
        ∃ step ∈ trace ⟨.continue, 0, 3⟩ [n] t, ∃ e, step.result.outcome = .error e ∧
          e.cause ≠ .undefinedVariable := by
  intro n s t
  have hs : Ends n s (.error (.undefined "z"))
      ⟨⟨[("a", .boolean true), ("b", .boolean true)]⟩, []⟩ := ⟨2, rfl⟩
  have ht : ∀ m ∈ [n], ∀ x ∈ m.reads, (t.env.get? x).isSome := by decide
  have hstep : (⟨⟨n, .error (.notNumber "z" (.literal "k"))⟩, ⟨⟨[("a", .boolean true),
      ("b", .boolean true), ("z", .literal "k")]⟩, []⟩⟩ : Step) ∈ trace ⟨.continue, 0, 3⟩ [n] t :=
    List.mem_cons_self
  exact ⟨⟨_, hs, (undefined_of_ends s).1 n _ _ hs rfl⟩, ht, _, hstep, _, rfl,
    ((undefined_of_ends t).2 [n] ht).2 _ _ hstep _ rfl⟩

end Evaluation

end Scriptlet
