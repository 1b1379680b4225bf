import Scriptlet.Proofs.Evaluation.Contract
import Scriptlet.Proofs.Parser.Shape

/-!
# What parsed programs do to the variables

A tree without holes reads variables, binds them and warns; nothing else happens to the state, and
nothing else fails than a variable that is not there and a value of the wrong kind. So an invariant
that a new binding and a new warning keep is kept by every statement, whether it ends or fails.

## Main definitions

* `Evaluation.Stable`: the invariants that bindings and warnings keep
* `Environment.Sound`: the variables that a program can make

## Main statements

* `Node.Proper.keeps`: a tree without holes keeps every stable invariant
* `Evaluation.ensures_recorded`: an assignment that is reported is there
-/

namespace Scriptlet

namespace Evaluation

open Effect

/--
An invariant that a program without holes keeps, and the errors that it ends with: it only ever binds
words to values that can be stored, and warns of the others.
-/
structure Stable (inv : State → Prop) (err : EvalError → State → Prop) : Prop where
  undefined : ∀ name s, s.env.get? name = none → inv s → err (.undefined name) s
  mismatch : ∀ e s, e.cause = .typeMismatch → inv s → err e s
  define : ∀ name v s, Token.Scanned { kind := .identifier, text := name } → v.isStorable → inv s →
    inv { s with env := ⟨Environment.insert name v s.env.bindings⟩ }
  warn : ∀ e s, e.cause = .unassignableValue → inv s → inv { s with warnings := s.warnings ++ [e] }

variable {inv : State → Prop} {err : EvalError → State → Prop}

theorem Stable.keeps_lookup (st : Stable inv err) (name : String) : (lookup name).Keeps inv err := by
  refine (ensures_lookup name).mono (fun _ _ h => h.1) ?_
  rintro e s ⟨hs, rfl, hx⟩
  exact st.undefined name s hx hs

theorem keeps_arithmetic {node : Node} {op : Token.Kind} (ho : op.isArithmetic) (a b : Float) :
    (arithmetic node op a b).Keeps inv err := by
  cases op with
  | add | subtract | multiply | divide | power => exact keeps_pure _
  | _ => cases ho

end Evaluation

open Evaluation Effect

section Keeps

variable {inv : State → Prop} {err : EvalError → State → Prop} {passes : Nat}

-- The recursion is that of the trees; the hypothesis is taken apart along with them.
mutual

theorem Node.Proper.keeps (st : Stable inv err) :
    ∀ {n : Node}, n.Proper → (meaning passes n).Keeps inv err
  | .number v, _ => by
    rw [meaning]
    exact Meaning.keeps_ofNumber st.mismatch (keeps_pure v)
  | .negative e, .negative he => by
    rw [meaning]
    exact Meaning.keeps_ofNumber st.mismatch ((he.keeps st).number.bind fun _ => keeps_pure _)
  | .literal text k, _ => by
    rw [meaning]
    exact Meaning.keeps_ofValue st.mismatch (keeps_pure _)
  | .identifier x, _ => by
    rw [meaning]
    have hv : (Meaning.ofValue (.identifier x) (lookup x)).Keeps inv err :=
      Meaning.keeps_ofValue st.mismatch (st.keeps_lookup x)
    refine ⟨hv.value, ?_, hv.test⟩
    exact keeps_lookupNumber (st.keeps_lookup x) fun v s => st.mismatch _ s rfl
  | .binary op l r, .binary ho hl hr => by
    rw [meaning]
    refine Meaning.keeps_ofNumber st.mismatch ?_
    refine (hl.keeps st).number.bind fun a => ?_
    refine (hr.keeps st).number.bind fun b => ?_
    exact keeps_arithmetic ho a b
  | .assignment (some x) e, .assignment ht hv => by
    rw [meaning]
    refine Meaning.keeps_ofValue st.mismatch (keeps_assign (hv.keeps st).value ?_ ?_)
    · exact fun v s => st.define x v s ht
    · exact fun v s => st.warn _ s rfl
  | .condition l r, .condition hl hr => by
    rw [meaning]
    refine Meaning.keeps_ofTest st.mismatch ?_
    refine (hl.keeps st).value.bind fun a => ?_
    exact (hr.keeps st).value.bind fun b => keeps_pure _
  | .ifElse test body rest, .ifElse ht hb hr => by
    rw [meaning]
    refine Meaning.keeps_ofStatement st.mismatch ?_
    exact (ht.keeps st).test.branch (keeps_block st hb) (hr.keeps st)
  | .elseLink test body rest, .elifLink ht hb hr => by
    rw [meaning]
    refine Meaning.keeps_ofStatement st.mismatch ?_
    rw [if_neg fun h => ht.ne_missing (Node.isMissing_iff.mp h)]
    exact (ht.keeps st).test.branch (keeps_block st hb) (hr.keeps st)
  | .elseLink .missing body .done, .elseLink hb => by
    rw [meaning]
    exact Meaning.keeps_ofStatement st.mismatch (keeps_block st hb)
  | .whileLoop test body, .whileLoop ht hb => by
    rw [meaning]
    refine Meaning.keeps_ofStatement st.mismatch ?_
    rw [if_neg fun h => ht.ne_missing (Node.isMissing_iff.mp h)]
    exact (ht.keeps st).test.loop (keeps_block st hb) passes
  | .whileLoop .missing body, .loop hb => by
    rw [meaning]
    exact Meaning.keeps_ofStatement st.mismatch (keeps_pure ())
termination_by structural n => n

theorem keeps_block (st : Stable inv err) :
    ∀ {ns : List Node}, (∀ n ∈ ns, n.Proper) → (block passes ns).Keeps inv err
  | [], _ => by
    rw [block]
    exact keeps_pure ()
  | n :: ns, h => by
    rw [block]
    obtain ⟨hn, hns⟩ := List.forall_mem_cons.mp h
    exact (hn.keeps st).value.bind fun _ => keeps_block st hns
termination_by structural ns => ns

theorem Chain.Proper.keeps (st : Stable inv err) :
    ∀ {c : Chain}, c.Proper → (branches passes c).Keeps inv err
  | .done, _ => by
    rw [branches]
    exact keeps_pure ()
  | .link test body rest, .elifLink ht hb hr => by
    rw [branches, if_neg fun h => ht.ne_missing (Node.isMissing_iff.mp h)]
    exact (ht.keeps st).test.branch (keeps_block st hb) (hr.keeps st)
  | .link .missing body .done, .elseLink hb => by
    rw [branches]
    exact keeps_block st hb
termination_by structural c => c

end

end Keeps

/-! ## The variables -/

namespace Environment

variable {name : String} {v : Value} {bindings : List (String × Value)}

theorem mem_insert {b : String × Value} (h : b ∈ insert name v bindings) :
    b = (name, v) ∨ b ∈ bindings := by
  induction bindings with
  | nil => simpa [insert] using h
  | cons c rest ih =>
    unfold insert at h
    split at h
    · grind
    · split at h
      · grind
      · grind

theorem lookup_insert_self (name : String) (v : Value) (bindings : List (String × Value)) :
    (insert name v bindings).lookup name = some v := by
  induction bindings with
  | nil => simp [insert]
  | cons b rest ih =>
    obtain ⟨x, w⟩ := b
    unfold insert
    split
    · simp
    · rename_i hne
      split
      · simp
      · simpa [List.lookup_cons, beq_false_of_ne hne] using ih

theorem mem_of_get? {env : Environment} (h : env.get? name = some v) : (name, v) ∈ env.bindings := by
  obtain ⟨before, after, hb, -⟩ := List.lookup_eq_some_iff.mp h
  simp [hb]

/-- Every name is a word that is not reserved, and every value is one that a variable can hold. -/
structure Sound (env : Environment) : Prop where
  named : ∀ b ∈ env.bindings, Text.IsWord b.1 ∧ Keyword.ofWord? b.1 = none
  storable : ∀ b ∈ env.bindings, b.2.isStorable

theorem sound_empty : empty.Sound := ⟨nofun, nofun⟩

theorem Sound.insert {env : Environment} (h : env.Sound)
    (hn : Token.Scanned { kind := .identifier, text := name }) (hv : v.isStorable) :
    Sound ⟨insert name v env.bindings⟩ := by
  have hname : Text.IsWord name ∧ Keyword.ofWord? name = none := by
    cases hn with
    | identifier hw hk => exact ⟨hw, hk⟩
    | symbol hk => simp [Lexeme.wordKinds] at hk
  constructor
  · intro b hb
    obtain rfl | hb := mem_insert hb
    · exact hname
    · exact h.named b hb
  · intro b hb
    obtain rfl | hb := mem_insert hb
    · exact hv
    · exact h.storable b hb

end Environment

namespace Evaluation

/-- The variables stay sound, and an error leaves them sound too. -/
theorem stable_sound : Stable (fun s => s.env.Sound) (fun _ s => s.env.Sound) where
  undefined _ _ _ hs := hs
  mismatch _ _ _ hs := hs
  define _ _ _ hn hv hs := hs.insert hn hv
  warn _ _ _ hs := hs

/-- If the value reports a binding, it can be stored and the variables have it. -/
def Recorded (v : Value) (s : State) : Prop :=
  ∀ name w, v = .assignment name w → w.isStorable ∧ s.env.get? name = some w

theorem recorded_of_ne {v : Value} (h : ∀ name w, v ≠ .assignment name w) (s : State) :
    Recorded v s :=
  fun name w he => absurd he (h name w)

/-- An assignment reports what it has bound, whatever its value was. -/
theorem ensures_recorded_assign {pre : State → Prop} (node : Node) (target : Option String)
    (value : Effect Value) :
    (assign node target value).Ensures pre Recorded (fun _ _ => True) := by
  cases target with
  | none => exact ensures_fail fun _ _ => trivial
  | some name =>
    refine (ensures_assign (ensures_true value)).mono ?_ fun _ _ _ => trivial
    rintro r s ⟨v, u, -, hr⟩
    cases hr with
    | bound hv =>
      rintro x w ⟨⟩
      exact ⟨hv, Environment.lookup_insert_self name v u.env.bindings⟩
    | warned => exact recorded_of_ne (by simp) _

/-- The values of all other nodes report no binding: a variable does not hold one. -/
theorem ensures_recorded (passes : Nat) (n : Node) :
    (evaluate passes n).Ensures (fun s => s.env.Sound) Recorded (fun _ _ => True) := by
  have hreturn {α : Type} {x : Effect α} {f : α → Value}
      (hf : ∀ a name w, f a ≠ .assignment name w) :
      Effect.Ensures (fun s => s.env.Sound) (do return f (← x)) Recorded (fun _ _ => True) :=
    (ensures_true x).bind fun a => ensures_pure fun s _ => recorded_of_ne (hf a) s
  cases n with
  | missing | endOfInput => exact ensures_fail fun _ _ => trivial
  | number | negative | binary | condition => exact hreturn (by simp)
  | ifElse | elseLink | whileLoop => exact hreturn (f := fun _ => .empty) (by simp)
  | literal text k =>
    refine ensures_pure fun s _ => recorded_of_ne ?_ s
    cases k <;> simp [literalValue]
  | identifier x =>
    refine (ensures_lookup x).mono ?_ fun _ _ _ => trivial
    rintro v s ⟨hs, hv⟩ name w rfl
    exact absurd (hs.storable _ (Environment.mem_of_get? hv)) (by simp [Value.isStorable])
  | assignment target e => exact ensures_recorded_assign _ _ _

end Evaluation

end Scriptlet
