import Mathlib
import Scriptlet.Evaluation

/-!
# Contracts of actions

What an action ensures: from every state with the first condition it ends, if it ends at all, with a
result or with an error, and each of the two has a condition of its own, which may also speak of the
state that is left. A statement that fails midway leaves its changes behind, so an invariant of the
state has to be part of both.

## Main definitions

* `Evaluation.Effect.Ensures`: the contract of an action
* `Evaluation.Effect.Keeps`: the contract that an invariant is kept
* `Evaluation.Assigned`: what an assignment adds to the action of its value
* `Evaluation.Meaning.Keeps`: all three actions of a node keep the invariant

## Main statements

* `Evaluation.Effect.loop_succ`: a loop is a pass in front of a loop
* `Evaluation.Effect.Ensures.bind`, `Evaluation.Effect.Keeps.loop`: contracts of composed actions
* `Evaluation.keeps_assign`: an assignment keeps what a new binding and a new warning keep
* `Evaluation.Meaning.keeps_ofValue`: a node keeps what its value keeps
-/

namespace Scriptlet.Evaluation

variable {α β : Type} {pre inv : State → Prop} {post : α → State → Prop}
  {err : EvalError → State → Prop}

/-- A result satisfies `post`, and an error satisfies `err`. -/
def Outcome.Satisfies (post : α → State → Prop) (err : EvalError → State → Prop) : Outcome α → Prop
  | .done a s => post a s
  | .failed e s => err e s
  | .unfinished => True

namespace Effect

/-- From a state with `pre`, a result satisfies `post`, and an error satisfies `err`. -/
def Ensures (pre : State → Prop) (x : Effect α) (post : α → State → Prop)
    (err : EvalError → State → Prop) : Prop :=
  ∀ s, pre s → (x s).Satisfies post err

/-- The invariant is kept, and an error satisfies `err`. -/
def Keeps (inv : State → Prop) (err : EvalError → State → Prop) (x : Effect α) : Prop :=
  x.Ensures inv (fun _ => inv) err

theorem Ensures.bind {x : Effect α} {f : α → Effect β} {after : β → State → Prop}
    (hx : x.Ensures pre post err) (hf : ∀ a, (f a).Ensures (post a) after err) :
    (x >>= f).Ensures pre after err := by
  intro s hs
  change (Effect.bind x f s).Satisfies after err
  have h := hx s hs
  unfold Effect.bind
  cases hxs : x s with
  | done a u =>
    rw [hxs] at h
    exact hf a u h
  | failed e u =>
    rw [hxs] at h
    exact h
  | unfinished => trivial

theorem Ensures.mono {x : Effect α} {post' : α → State → Prop} {err' : EvalError → State → Prop}
    (hx : x.Ensures pre post err) (hp : ∀ a s, post a s → post' a s)
    (he : ∀ e s, err e s → err' e s) : x.Ensures pre post' err' := by
  intro s hs
  have h := hx s hs
  cases hxs : x s with
  | done a u =>
    rw [hxs] at h
    exact hp a u h
  | failed e u =>
    rw [hxs] at h
    exact he e u h
  | unfinished => trivial

theorem Ensures.and {x : Effect α} {post' : α → State → Prop} {err' : EvalError → State → Prop}
    (hx : x.Ensures pre post err) (hx' : x.Ensures pre post' err') :
    x.Ensures pre (fun a s => post a s ∧ post' a s) (fun e s => err e s ∧ err' e s) := by
  intro s hs
  have h := hx s hs
  have h' := hx' s hs
  cases hxs : x s with
  | done a u | failed e u =>
    rw [hxs] at h h'
    exact ⟨h, h'⟩
  | unfinished => trivial

theorem ensures_pure {a : α} (h : ∀ s, pre s → post a s) : (pure a : Effect α).Ensures pre post err :=
  h

theorem ensures_fail {e : EvalError} (h : ∀ s, pre s → err e s) :
    (fail e : Effect α).Ensures pre post err :=
  h

theorem ensures_true (x : Effect α) : x.Ensures pre (fun _ _ => True) (fun _ _ => True) := by
  intro s _
  cases x s <;> trivial

/-- A variable that is read has the value that is found, and one that is not found is undefined. -/
theorem ensures_lookup (name : String) :
    (lookup name).Ensures inv (fun v s => inv s ∧ s.env.get? name = some v)
      (fun e s => inv s ∧ e = .undefined name ∧ s.env.get? name = none) := by
  intro s hs
  cases hv : s.env.get? name with
  | none => simp [lookup, hv, Outcome.Satisfies, hs]
  | some v => simp [lookup, hv, Outcome.Satisfies, hs]

theorem Keeps.bind {x : Effect α} {f : α → Effect β} (hx : x.Keeps inv err)
    (hf : ∀ a, (f a).Keeps inv err) : (x >>= f).Keeps inv err :=
  Ensures.bind hx hf

theorem keeps_pure (a : α) : (pure a : Effect α).Keeps inv err :=
  ensures_pure fun _ hs => hs

theorem Keeps.branch {c : Effect Bool} {x y : Effect α} (hc : c.Keeps inv err)
    (hx : x.Keeps inv err) (hy : y.Keeps inv err) :
    Keeps inv err (do if ← c then x else y) := by
  refine hc.bind fun b => ?_
  cases b
  · exact hy
  · exact hx

/-- A loop with a pass left is one pass in front of the same loop. -/
theorem loop_succ (test : Effect Bool) (body : Effect Unit) (passes : Nat) :
    Effect.loop test body (passes + 1) =
      (do if ← test then (do body; Effect.loop test body passes) else pure ()) := by
  funext s
  change _ = Effect.bind test _ s
  simp only [Effect.loop, Effect.bind]
  cases test s with
  | failed e u => rfl
  | unfinished => rfl
  | done b u =>
    cases b with
    | false => rfl
    | true =>
      change _ = Effect.bind body _ u
      simp only [Effect.bind]
      cases body u <;> rfl

/-- The induction is on the passes that are left: each pass starts where the one before it ended. -/
theorem Keeps.loop {test : Effect Bool} {body : Effect Unit} (ht : test.Keeps inv err)
    (hb : body.Keeps inv err) (passes : Nat) : (Effect.loop test body passes).Keeps inv err := by
  induction passes with
  | zero =>
    intro s _
    trivial
  | succ passes ih =>
    rw [loop_succ]
    exact ht.branch (hb.bind fun _ => ih) (keeps_pure ())

end Effect

open Effect

/-- What an assignment of the value `v`, which was found in `u`, gives and leaves behind. -/
inductive Assigned (node : Node) (name : String) (v : Value) (u : State) : Value → State → Prop where
  | bound (h : v.isStorable) : Assigned node name v u (.assignment name v)
      { u with env := ⟨Environment.insert name v u.env.bindings⟩ }
  | warned (h : ¬ v.isStorable) : Assigned node name v u .empty
      { u with warnings := u.warnings ++ [.unassignable node name v] }

theorem Assigned.unique {node : Node} {name : String} {v w w' : Value} {s u u' : State}
    (h : Assigned node name v s w u) (h' : Assigned node name v s w' u') : w = w' ∧ u = u' := by
  cases h with
  | bound hv =>
    cases h' with
    | bound => exact ⟨rfl, rfl⟩
    | warned hv' => exact absurd hv hv'
  | warned hv =>
    cases h' with
    | bound hv' => exact absurd hv' hv
    | warned => exact ⟨rfl, rfl⟩

/-- A new binding or a new warning is all that an assignment adds to the action of its value. -/
theorem ensures_assign {node : Node} {name : String} {value : Effect Value}
    {post : Value → State → Prop} (hv : value.Ensures pre post err) :
    (assign node (some name) value).Ensures pre
      (fun r s => ∃ v u, post v u ∧ Assigned node name v u r s) err := by
  refine hv.bind fun v => ?_
  by_cases h : v.isStorable
  · intro u hu
    simpa [h, Environment.define, Outcome.Satisfies] using ⟨v, u, hu, Assigned.bound h⟩
  · intro u hu
    simpa [h, Outcome.Satisfies] using ⟨v, u, hu, Assigned.warned h⟩

theorem keeps_assign {node : Node} {name : String} {value : Effect Value} (hv : value.Keeps inv err)
    (hd : ∀ v s, v.isStorable → inv s →
      inv { s with env := ⟨Environment.insert name v s.env.bindings⟩ })
    (hw : ∀ v s, inv s → inv { s with warnings := s.warnings ++ [.unassignable node name v] }) :
    (assign node (some name) value).Keeps inv err := by
  refine (ensures_assign hv).mono ?_ fun _ _ he => he
  rintro r s ⟨v, u, hu, hr⟩
  cases hr with
  | bound h => exact hd v u h hu
  | warned => exact hw v u hu

theorem keeps_lookupNumber {name : String} (hl : (lookup name).Keeps inv err)
    (hn : ∀ v s, inv s → err (.notNumber name v) s) : (lookupNumber name).Keeps inv err := by
  refine hl.bind fun v => ?_
  cases v with
  | number f => exact keeps_pure f
  | literal | boolean | assignment | empty | absent => exact ensures_fail (hn _)

/-- All three actions of a node keep the invariant. -/
structure Meaning.Keeps (inv : State → Prop) (err : EvalError → State → Prop) (m : Meaning) :
    Prop where
  value : m.value.Keeps inv err
  number : m.number.Keeps inv err
  test : m.test.Keeps inv err

namespace Meaning

variable {node : Node}

/-- A value of the wrong kind is all that can go wrong besides the value itself. -/
theorem keeps_ofValue {value : Effect Value}
    (hm : ∀ e s, e.cause = .typeMismatch → inv s → err e s) (hv : value.Keeps inv err) :
    (ofValue node value).Keeps inv err where
  value := hv
  number := hv.bind fun v => by
    cases v with
    | number f => exact keeps_pure f
    | literal | boolean | assignment | empty | absent => exact ensures_fail fun s => hm _ s rfl
  test := hv.bind fun v => by
    cases v with
    | boolean b => exact keeps_pure b
    | literal | number | assignment | empty | absent => exact ensures_fail fun s => hm _ s rfl

theorem keeps_ofNumber {number : Effect Float}
    (hm : ∀ e s, e.cause = .typeMismatch → inv s → err e s) (hn : number.Keeps inv err) :
    (ofNumber node number).Keeps inv err := by
  have h : (ofValue node (do return .number (← number))).Keeps inv err :=
    keeps_ofValue hm (hn.bind fun f => keeps_pure (Value.number f))
  exact ⟨h.value, hn, h.test⟩

theorem keeps_ofTest {test : Effect Bool}
    (hm : ∀ e s, e.cause = .typeMismatch → inv s → err e s) (ht : test.Keeps inv err) :
    (ofTest node test).Keeps inv err := by
  have h : (ofValue node (do return .boolean (← test))).Keeps inv err :=
    keeps_ofValue hm (ht.bind fun b => keeps_pure (Value.boolean b))
  exact ⟨h.value, h.number, ht⟩

theorem keeps_ofStatement {statement : Effect Unit}
    (hm : ∀ e s, e.cause = .typeMismatch → inv s → err e s) (hs : statement.Keeps inv err) :
    (ofStatement node statement).Keeps inv err :=
  keeps_ofValue hm (hs.bind fun _ => keeps_pure Value.empty)

end Meaning

end Scriptlet.Evaluation
