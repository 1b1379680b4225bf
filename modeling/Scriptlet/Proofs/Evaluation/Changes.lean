import Scriptlet.Proofs.Evaluation.Soundness
import Scriptlet.Proofs.Grouping

/-!
# What an evaluation changes

An evaluation changes a state in two ways only: it binds names, and it adds warnings. Which bindings
and which warnings these are depends on nothing but the variables that the tree reads. So a tree
that is evaluated from two states in which these variables have the same values makes the same
change to both, and it still does if its loops may make more passes the second time.

The two runs are compared action by action. The rules for the actions mirror how they are put
together, and one recursion over the trees gives the comparison for every node.

## Main definitions

* `Evaluation.Change`: bindings and warnings, in the order in which they are made
* `Environment.Storable`: environments of values that can be stored
* `Environment.AgreeOn`: two environments with the same values for some names
* `Evaluation.Effect.Mimics`: an action that does what another one does
* `Node.names`, `Node.targets`: the names that occur in a tree, and those that it assigns

## Main statements

* `Environment.insert_comm`, `Evaluation.Change.Within.env_apply_comm`: different names commute
* `Evaluation.Effect.Mimics.bind`, `Evaluation.Effect.Mimics.loop`: composed actions
* `Node.mimics`: a tree with more passes does what it does with fewer
-/

namespace Scriptlet

/-! ## Bindings -/

namespace Environment

variable {x : String} {names targets : List String} {bindings bindings' : List (String × Value)}

/-- Binding a name leaves the other names alone. -/
theorem lookup_insert_of_ne {name : String} (h : x ≠ name) (v : Value)
    (bindings : List (String × Value)) : (insert name v bindings).lookup x = bindings.lookup x := by
  induction bindings with
  | nil => grind [insert]
  | cons b rest ih => grind [insert]

/-- Two names can be bound in either order. -/
theorem insert_comm {name : String} (h : x ≠ name) (v w : Value)
    (bindings : List (String × Value)) :
    insert x v (insert name w bindings) = insert name w (insert x v bindings) := by
  induction bindings with
  | nil => grind [insert]
  | cons b rest ih => grind [insert]

/-- Makes bindings one after the other. -/
def insertAll (new bindings : List (String × Value)) : List (String × Value) :=
  new.foldl (fun bindings b => insert b.1 b.2 bindings) bindings

theorem insertAll_append (new new' bindings : List (String × Value)) :
    insertAll (new ++ new') bindings = insertAll new' (insertAll new bindings) :=
  List.foldl_append

theorem lookup_insertAll_congr (new : List (String × Value))
    (h : bindings.lookup x = bindings'.lookup x) :
    (insertAll new bindings).lookup x = (insertAll new bindings').lookup x := by
  refine List.foldl_rel (r := fun c c' => List.lookup x c = List.lookup x c') h ?_
  intro b _ c c' hc
  by_cases hx : x = b.1
  · simp only [hx, lookup_insert_self]
  · rw [lookup_insert_of_ne hx, lookup_insert_of_ne hx, hc]

theorem lookup_insertAll_of_notMem {new : List (String × Value)} (h : ∀ b ∈ new, x ≠ b.1) :
    (insertAll new bindings).lookup x = bindings.lookup x := by
  refine List.foldlRecOn (motive := fun c => List.lookup x c = bindings.lookup x) new _ rfl ?_
  intro c hc b hb
  rw [lookup_insert_of_ne (h b hb), hc]

/-- A name that is bound stays bound. -/
theorem isSome_lookup_insertAll {new : List (String × Value)} (h : (bindings.lookup x).isSome) :
    ((insertAll new bindings).lookup x).isSome := by
  refine List.foldlRecOn (motive := fun c => (List.lookup x c).isSome) new _ h ?_
  intro c hc b _
  by_cases hx : x = b.1
  · simp [hx, lookup_insert_self]
  · rwa [lookup_insert_of_ne hx]

theorem insert_insertAll {new : List (String × Value)} (h : ∀ b ∈ new, x ≠ b.1) (v : Value) :
    insertAll new (insert x v bindings) = insert x v (insertAll new bindings) := by
  refine List.foldl_rel (r := fun c c' => c = insert x v c') rfl ?_
  rintro b hb _ c rfl
  exact (insert_comm (h b hb) v b.2 c).symm

theorem insertAll_comm {new new' : List (String × Value)}
    (h : ∀ b ∈ new, ∀ b' ∈ new', b'.1 ≠ b.1) :
    insertAll new (insertAll new' bindings) = insertAll new' (insertAll new bindings) := by
  refine List.foldl_rel (r := fun c c' => c = insertAll new' c') rfl ?_
  rintro b hb _ c rfl
  exact (insert_insertAll (fun b' hb' => (h b hb b' hb').symm) b.2).symm

/-- Every variable holds a value that can be stored. -/
def Storable (env : Environment) : Prop := ∀ x v, env.get? x = some v → v.isStorable

theorem storable_empty : empty.Storable := nofun

theorem Storable.insertAll {env : Environment} {new : List (String × Value)} (h : env.Storable)
    (hnew : ∀ b ∈ new, b.2.isStorable) : Storable ⟨insertAll new env.bindings⟩ := by
  refine List.foldlRecOn (motive := fun c => Storable ⟨c⟩) new _ h ?_
  intro c hc b hb x v hv
  change (insert b.1 b.2 c).lookup x = some v at hv
  by_cases hx : x = b.1
  · rw [hx, lookup_insert_self] at hv
    cases hv
    exact hnew b hb
  · rw [lookup_insert_of_ne hx] at hv
    exact hc x v hv

/-- The two environments have the same value, or none, for each of the names. -/
def AgreeOn (names : List String) (env env' : Environment) : Prop :=
  ∀ x ∈ names, env.get? x = env'.get? x

instance (names : List String) (env env' : Environment) : Decidable (env.AgreeOn names env') :=
  inferInstanceAs (Decidable (∀ x ∈ names, env.get? x = env'.get? x))

theorem AgreeOn.symm {env env' : Environment} (h : env.AgreeOn names env') :
    env'.AgreeOn names env :=
  fun x hx => (h x hx).symm

end Environment

namespace Evaluation

open Effect

/-! ## Changes -/

variable {α β : Type} {names targets : List String} {s t : State}

/-- The bindings that an evaluation makes and the warnings that it gives, in order. -/
structure Change where
  bindings : List (String × Value) := []
  warnings : List EvalError := []

namespace Change

variable {c d : Change}

/-- The state after the change. -/
def apply (c : Change) (s : State) : State where
  env := ⟨Environment.insertAll c.bindings s.env.bindings⟩
  warnings := s.warnings ++ c.warnings

/-- One change after the other. -/
def andThen (c d : Change) : Change := ⟨c.bindings ++ d.bindings, c.warnings ++ d.warnings⟩

/--
The change binds no other names, and these only to values that a variable can hold; it warns only of
values that cannot be assigned.
-/
structure Within (targets : List String) (c : Change) : Prop where
  bindings : ∀ b ∈ c.bindings, b.1 ∈ targets
  storable : ∀ b ∈ c.bindings, b.2.isStorable
  warnings : ∀ w ∈ c.warnings, w.cause = .unassignableValue

theorem apply_empty (s : State) : Change.apply {} s = s := by
  simp [apply, Environment.insertAll]

theorem apply_andThen (c d : Change) (s : State) : (c.andThen d).apply s = d.apply (c.apply s) := by
  simp [apply, andThen, Environment.insertAll_append]

theorem within_empty : Within targets {} := ⟨nofun, nofun, nofun⟩

theorem Within.andThen (hc : c.Within targets) (hd : d.Within targets) :
    (c.andThen d).Within targets where
  bindings b hb := (List.mem_append.mp hb).elim (hc.bindings b) (hd.bindings b)
  storable b hb := (List.mem_append.mp hb).elim (hc.storable b) (hd.storable b)
  warnings w hw := (List.mem_append.mp hw).elim (hc.warnings w) (hd.warnings w)

theorem agreeOn_apply (c : Change) (h : s.env.AgreeOn names t.env) :
    (c.apply s).env.AgreeOn names (c.apply t).env :=
  fun x hx => Environment.lookup_insertAll_congr c.bindings (h x hx)

theorem Within.get?_apply (hc : c.Within targets) {x : String} (hx : x ∉ targets) :
    (c.apply s).env.get? x = s.env.get? x := by
  refine Environment.lookup_insertAll_of_notMem fun b hb => ?_
  exact (ne_of_mem_of_not_mem (hc.bindings b hb) hx).symm

/-- A change of other names is not seen on the given ones. -/
theorem Within.agreeOn_apply (hc : c.Within targets) (h : ∀ x ∈ targets, x ∉ names) (s : State) :
    s.env.AgreeOn names (c.apply s).env :=
  fun x hx => (hc.get?_apply fun ht => h x ht hx).symm

theorem isSome_get?_apply (c : Change) {x : String} (h : (s.env.get? x).isSome) :
    ((c.apply s).env.get? x).isSome :=
  Environment.isSome_lookup_insertAll h

theorem Within.storable_apply (hc : c.Within targets) (h : s.env.Storable) :
    (c.apply s).env.Storable :=
  h.insertAll hc.storable

/-- Changes of different names can be made in either order. -/
theorem Within.env_apply_comm {targets' : List String} (hc : c.Within targets)
    (hd : d.Within targets') (h : ∀ x ∈ targets, x ∉ targets') :
    (c.apply (d.apply s)).env = (d.apply (c.apply s)).env := by
  refine congrArg Environment.mk (Environment.insertAll_comm fun b hb b' hb' => ?_)
  exact ne_of_mem_of_not_mem (hd.bindings b' hb') (h b.1 (hc.bindings b hb))

end Change

/-! ## Actions that do the same -/

/--
If the outcome from `s` is finished, then the one from `t` is the same up to the state, and both
come with the same change.
-/
inductive Outcome.Matches (targets : List String) (s t : State) : Outcome α → Outcome α → Prop where
  | done (a : α) {c : Change} (hc : c.Within targets) :
      Matches targets s t (.done a (c.apply s)) (.done a (c.apply t))
  | failed (e : EvalError) {c : Change} (hc : c.Within targets) :
      Matches targets s t (.failed e (c.apply s)) (.failed e (c.apply t))
  | unfinished (o : Outcome α) : Matches targets s t .unfinished o

/-- What happens after a change comes with that change in front. -/
theorem Outcome.Matches.after {c : Change} (hc : c.Within targets) {o o' : Outcome α}
    (h : o.Matches targets (c.apply s) (c.apply t) o') : o.Matches targets s t o' := by
  cases h with
  | done a hd =>
    simp only [← Change.apply_andThen]
    exact .done a (hc.andThen hd)
  | failed e hd =>
    simp only [← Change.apply_andThen]
    exact .failed e (hc.andThen hd)
  | unfinished => exact .unfinished o'

namespace Effect

/-- If `x` finishes, then `y` does the same from every state that agrees on the names. -/
def Mimics (names targets : List String) (x y : Effect α) : Prop :=
  ∀ s t, s.env.AgreeOn names t.env → (x s).Matches targets s t (y t)

theorem mimics_pure (a : α) : Mimics names targets (pure a) (pure a) := by
  intro s t _
  have h : Outcome.Matches targets s t (.done a (Change.apply {} s))
      (.done a (Change.apply {} t)) := .done a Change.within_empty
  rwa [Change.apply_empty, Change.apply_empty] at h

theorem mimics_fail (e : EvalError) : Mimics names targets (fail e : Effect α) (fail e) := by
  intro s t _
  have h : Outcome.Matches (α := α) targets s t (.failed e (Change.apply {} s))
      (.failed e (Change.apply {} t)) := .failed e Change.within_empty
  rwa [Change.apply_empty, Change.apply_empty] at h

theorem Mimics.bind {x y : Effect α} {f g : α → Effect β} (hx : Mimics names targets x y)
    (hf : ∀ a, Mimics names targets (f a) (g a)) : Mimics names targets (x >>= f) (y >>= g) := by
  intro s t h
  have hxy := hx s t h
  change (Effect.bind x f s).Matches targets s t (Effect.bind y g t)
  unfold Effect.bind
  generalize x s = o at hxy
  generalize y t = o' at hxy
  cases hxy with
  | @done a c hc => exact (hf a _ _ (c.agreeOn_apply h)).after hc
  | failed e hc => exact .failed e hc
  | unfinished o' => exact .unfinished _

theorem Mimics.branch {c c' : Effect Bool} {x x' y y' : Effect α} (hc : Mimics names targets c c')
    (hx : Mimics names targets x x') (hy : Mimics names targets y y') :
    Mimics names targets (do if ← c then x else y) (do if ← c' then x' else y') := by
  refine hc.bind fun b => ?_
  cases b
  · exact hy
  · exact hx

/-- The induction is on the passes of the first loop; the second one may make more of them. -/
theorem Mimics.loop {test test' : Effect Bool} {body body' : Effect Unit}
    (ht : Mimics names targets test test') (hb : Mimics names targets body body') {p q : Nat}
    (hpq : p ≤ q) : Mimics names targets (Effect.loop test body p) (Effect.loop test' body' q) := by
  induction p generalizing q with
  | zero =>
    intro s t _
    exact .unfinished _
  | succ p ih =>
    obtain ⟨q, rfl⟩ := Nat.exists_eq_add_of_le' hpq
    rw [loop_succ, ← Nat.add_assoc, loop_succ]
    exact ht.branch (hb.bind fun _ => ih (by omega)) (mimics_pure ())

theorem mimics_warn {e : EvalError} (he : e.cause = .unassignableValue) :
    Mimics names targets (warn e) (warn e) := by
  intro s t _
  have hc : Change.Within targets ⟨[], [e]⟩ := ⟨nofun, nofun, by simpa using he⟩
  exact .done () hc

theorem mimics_lookup {x : String} (hx : x ∈ names) :
    Mimics names targets (lookup x) (lookup x) := by
  intro s t h
  have hv := h x hx
  cases hs : s.env.get? x with
  | none =>
    simp only [lookup, ← hv, hs]
    exact mimics_fail (.undefined x) s t h
  | some v =>
    simp only [lookup, ← hv, hs]
    exact mimics_pure v s t h

end Effect

theorem mimics_lookupNumber {x : String} (hx : x ∈ names) :
    Mimics names targets (lookupNumber x) (lookupNumber x) := by
  refine (mimics_lookup hx).bind fun v => ?_
  cases v with
  | number f => exact mimics_pure f
  | literal | boolean | assignment | empty | absent => exact mimics_fail _

theorem mimics_arithmetic (node : Node) (op : Token.Kind) (a b : Float) :
    Mimics names targets (arithmetic node op a b) (arithmetic node op a b) := by
  cases op with
  | add | subtract | multiply | divide | power => exact mimics_pure _
  | _ => exact mimics_fail _

/-- An assignment changes its target only, or warns. -/
theorem mimics_assign (node : Node) {target : Option String} {value value' : Effect Value}
    (ht : ∀ x ∈ target, x ∈ targets) (hv : Mimics names targets value value') :
    Mimics names targets (assign node target value) (assign node target value') := by
  cases target with
  | none => exact mimics_fail _
  | some name =>
    refine hv.bind fun v => ?_
    by_cases h : v.isStorable
    · intro s t _
      have hc : Change.Within targets ⟨[(name, v)], []⟩ :=
        ⟨by simpa using ht, by simpa using h, nofun⟩
      simpa [h, Environment.define, Change.apply, Environment.insertAll] using
        Outcome.Matches.done (s := s) (t := t) (Value.assignment name v) hc
    · have hw : Mimics names targets (warn (.unassignable node name v)) _ := mimics_warn rfl
      simpa [h] using hw.bind fun _ => mimics_pure Value.empty

/-- Each of the three actions does what the other one does. -/
structure Meaning.Mimics (names targets : List String) (m m' : Meaning) : Prop where
  value : Effect.Mimics names targets m.value m'.value
  number : Effect.Mimics names targets m.number m'.number
  test : Effect.Mimics names targets m.test m'.test

namespace Meaning

variable {node : Node}

theorem mimics_ofValue {value value' : Effect Value}
    (h : Effect.Mimics names targets value value') :
    (ofValue node value).Mimics names targets (ofValue node value') where
  value := h
  number := h.bind fun v => by
    cases v with
    | number f => exact mimics_pure f
    | literal | boolean | assignment | empty | absent => exact mimics_fail _
  test := h.bind fun v => by
    cases v with
    | boolean b => exact mimics_pure b
    | literal | number | assignment | empty | absent => exact mimics_fail _

theorem mimics_ofNumber {number number' : Effect Float}
    (h : Effect.Mimics names targets number number') :
    (ofNumber node number).Mimics names targets (ofNumber node number') := by
  have hv : (ofValue node (do return .number (← number))).Mimics names targets
      (ofValue node (do return .number (← number'))) :=
    mimics_ofValue (h.bind fun f => mimics_pure (Value.number f))
  exact ⟨hv.value, h, hv.test⟩

theorem mimics_ofTest {test test' : Effect Bool} (h : Effect.Mimics names targets test test') :
    (ofTest node test).Mimics names targets (ofTest node test') := by
  have hv : (ofValue node (do return .boolean (← test))).Mimics names targets
      (ofValue node (do return .boolean (← test'))) :=
    mimics_ofValue (h.bind fun b => mimics_pure (Value.boolean b))
  exact ⟨hv.value, hv.number, h⟩

theorem mimics_ofStatement {statement statement' : Effect Unit}
    (h : Effect.Mimics names targets statement statement') :
    (ofStatement node statement).Mimics names targets (ofStatement node statement') :=
  mimics_ofValue (h.bind fun _ => mimics_pure Value.empty)

end Meaning

end Evaluation

/-! ## The names in a tree -/

namespace Node

/-- The variable that a node itself reads. -/
def read? : Node → Option String
  | identifier x => some x
  | _ => none

/-- The variable that a node itself assigns. -/
def target? : Node → Option String
  | assignment target _ => target
  | _ => none

/-- The names that are assigned in a tree. -/
def targets (n : Node) : List String := n.subtrees.filterMap target?

/-- The names that occur in a tree, be it that they are read or that they are assigned. -/
def names (n : Node) : List String := n.subtrees.filterMap read? ++ n.targets

theorem mem_names_of_mem_targets {n : Node} {x : String} (h : x ∈ n.targets) : x ∈ n.names :=
  List.mem_append_right _ h

/-- The node itself reads only `names` and assigns only `targets`. -/
structure UsesOnly (names targets : List String) (n : Node) : Prop where
  reads : ∀ x ∈ n.read?, x ∈ names
  assigns : ∀ x ∈ n.target?, x ∈ targets

theorem usesOnly_of_mem_subtrees {n m : Node} (h : m ∈ n.subtrees) :
    m.UsesOnly n.names n.targets where
  reads _ hx := List.mem_append_left _ (List.mem_filterMap.mpr ⟨m, h, hx⟩)
  assigns _ hx := List.mem_filterMap.mpr ⟨m, h, hx⟩

end Node

open Evaluation Effect

section Mimics

variable {names targets : List String} {p q : Nat}

-- The recursion is that of the trees; the hypothesis on the subtrees is split along with them.
mutual

theorem Node.mimics (hpq : p ≤ q) :
    ∀ {n : Node}, (∀ m ∈ n.subtrees, m.UsesOnly names targets) →
      (meaning p n).Mimics names targets (meaning q n)
  | .missing, _ => by
    have hv : (Meaning.ofValue .missing (fail .noNode)).Mimics names targets
        (Meaning.ofValue .missing (fail .noNode)) := Meaning.mimics_ofValue (mimics_fail _)
    rw [meaning, meaning]
    exact ⟨hv.value, hv.number, mimics_pure false⟩
  | .number v, _ => by
    rw [meaning, meaning]
    exact Meaning.mimics_ofNumber (mimics_pure v)
  | .negative e, h => by
    simp only [Node.subtrees, List.forall_mem_cons] at h
    rw [meaning, meaning]
    exact Meaning.mimics_ofNumber ((Node.mimics hpq h.2).number.bind fun _ => mimics_pure _)
  | .literal text k, _ => by
    rw [meaning, meaning]
    exact Meaning.mimics_ofValue (mimics_pure _)
  | .identifier x, h => by
    have hx : x ∈ names := (h (.identifier x) (by simp)).reads x rfl
    have hv : (Meaning.ofValue (.identifier x) (lookup x)).Mimics names targets
        (Meaning.ofValue (.identifier x) (lookup x)) := Meaning.mimics_ofValue (mimics_lookup hx)
    rw [meaning, meaning]
    exact ⟨hv.value, mimics_lookupNumber hx, hv.test⟩
  | .binary op l r, h => by
    simp only [Node.subtrees, List.forall_mem_cons, List.forall_mem_append] at h
    rw [meaning, meaning]
    refine Meaning.mimics_ofNumber ?_
    refine (Node.mimics hpq h.2.1).number.bind fun a => ?_
    refine (Node.mimics hpq h.2.2).number.bind fun b => ?_
    exact mimics_arithmetic _ op a b
  | .assignment target e, h => by
    simp only [Node.subtrees, List.forall_mem_cons] at h
    rw [meaning, meaning]
    refine Meaning.mimics_ofValue ?_
    exact mimics_assign _ h.1.assigns (Node.mimics hpq h.2).value
  | .condition l r, h => by
    simp only [Node.subtrees, List.forall_mem_cons, List.forall_mem_append] at h
    rw [meaning, meaning]
    refine Meaning.mimics_ofTest ?_
    refine (Node.mimics hpq h.2.1).value.bind fun a => ?_
    exact (Node.mimics hpq h.2.2).value.bind fun b => mimics_pure _
  | .ifElse test body rest, h => by
    simp only [Node.subtrees, List.forall_mem_cons, List.forall_mem_append] at h
    rw [meaning, meaning]
    refine Meaning.mimics_ofStatement ?_
    exact (Node.mimics hpq h.2.1.1).test.branch (mimics_block hpq h.2.1.2) (Chain.mimics hpq h.2.2)
  | .elseLink test body rest, h => by
    simp only [Node.subtrees, List.forall_mem_cons, List.forall_mem_append] at h
    rw [meaning, meaning]
    refine Meaning.mimics_ofStatement ?_
    split
    · exact mimics_block hpq h.2.1.2
    · exact (Node.mimics hpq h.2.1.1).test.branch (mimics_block hpq h.2.1.2)
        (Chain.mimics hpq h.2.2)
  | .whileLoop test body, h => by
    simp only [Node.subtrees, List.forall_mem_cons, List.forall_mem_append] at h
    rw [meaning, meaning]
    refine Meaning.mimics_ofStatement ?_
    split
    · exact mimics_pure ()
    · exact (Node.mimics hpq h.2.1).test.loop (mimics_block hpq h.2.2) hpq
  | .endOfInput text, _ => by
    rw [meaning, meaning]
    exact Meaning.mimics_ofValue (mimics_fail _)
termination_by structural n => n

theorem mimics_block (hpq : p ≤ q) :
    ∀ {ns : List Node}, (∀ m ∈ Node.subtreesAll ns, m.UsesOnly names targets) →
      Mimics names targets (block p ns) (block q ns)
  | [], _ => by
    rw [block, block]
    exact mimics_pure ()
  | n :: ns, h => by
    simp only [Node.subtreesAll, List.forall_mem_append] at h
    rw [block, block]
    exact (Node.mimics hpq h.1).value.bind fun _ => mimics_block hpq h.2
termination_by structural ns => ns

theorem Chain.mimics (hpq : p ≤ q) :
    ∀ {c : Chain}, (∀ m ∈ c.subtrees, m.UsesOnly names targets) →
      Mimics names targets (branches p c) (branches q c)
  | .done, _ => by
    rw [branches, branches]
    exact mimics_pure ()
  | .link test body rest, h => by
    simp only [Chain.subtrees, List.forall_mem_append] at h
    rw [branches, branches]
    split
    · exact mimics_block hpq h.1.2
    · exact (Node.mimics hpq h.1.1).test.branch (mimics_block hpq h.1.2) (Chain.mimics hpq h.2)
termination_by structural c => c

end

end Mimics

end Scriptlet
