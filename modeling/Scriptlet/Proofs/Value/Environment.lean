import Scriptlet.Proofs.Evaluation.Changes
import Scriptlet.Proofs.Text.Order
import Scriptlet.Value.Snapshot

/-!
# The environment as a map

An environment behaves as a map that is listed in order: the last value that was bound to a name is
the one that is found, only what can be stored is ever bound, and the names are listed in increasing
order of their bytes, each once. Snapshots lie elsewhere in memory, so nothing that is written to
them is seen in the environment.

## Main definitions

* `Environment.Sorted`: the names are in increasing order
* `Heap.Apart`: the environment and its snapshots lie at different addresses
* `Heap.accepted`: the bindings of the definitions that succeed

## Main statements

* `Environment.copy_eq`: a copy has the same bindings, whatever order they are met in
* `Environment.keys_eq`: the names are listed as they are bound, whatever order they are met in
* `Heap.Apart.perform`, `Heap.Apart.environment_perform`: what one operation does
* `Heap.Apart.environment_run`: the bindings that definitions made, and no other change
* `Heap.load_snapshot`: a snapshot has the bindings of the environment
* `Heap.sorted_last_write_wins`: the map that definitions make, whatever else is done
-/

namespace Scriptlet

namespace Environment

variable {x name : String} {v : Value} {bindings entries : List (String × Value)}
  {env : Environment}

/-! ## Order -/

/-- The names are in increasing order. -/
def Sorted (bindings : List (String × Value)) : Prop := bindings.Pairwise fun a b => a.1 < b.1

theorem pairwise_names (h : Sorted env.bindings) : env.names.Pairwise (· < ·) :=
  List.pairwise_map.mpr h

/-- Binding a name keeps the order. -/
theorem Sorted.insert (h : Sorted bindings) (name : String) (v : Value) :
    Sorted (insert name v bindings) := by
  induction bindings with
  | nil => exact List.pairwise_singleton _ _
  | cons b rest ih =>
    obtain ⟨x, w⟩ := b
    obtain ⟨hx, hrest⟩ := List.pairwise_cons.mp h
    rw [Environment.insert]
    split_ifs with heq hlt
    · subst heq
      exact List.pairwise_cons.mpr ⟨hx, hrest⟩
    · refine List.pairwise_cons.mpr ⟨fun b hb => ?_, h⟩
      rcases List.mem_cons.mp hb with rfl | hb
      · exact hlt
      · exact hlt.trans (hx b hb)
    · have hgt : x < name := lt_of_le_of_ne (not_lt.mp hlt) (Ne.symm heq)
      refine List.pairwise_cons.mpr ⟨fun b hb => ?_, ih hrest⟩
      rcases mem_insert hb with rfl | hb
      · exact hgt
      · exact hx b hb

theorem insert_of_forall_lt (h : ∀ b ∈ bindings, b.1 < name) :
    Environment.insert name v bindings = bindings ++ [(name, v)] := by
  induction bindings with
  | nil => rfl
  | cons b rest ih =>
    obtain ⟨hb, hrest⟩ := List.forall_mem_cons.mp h
    rw [Environment.insert, if_neg hb.ne', if_neg hb.not_gt, ih hrest, List.cons_append]

/-- Bindings that are made in order are appended. -/
theorem insertAll_of_sorted (h : Sorted (bindings ++ entries)) :
    insertAll entries bindings = bindings ++ entries := by
  induction entries generalizing bindings with
  | nil => simp [insertAll]
  | cons e entries ih =>
    have hlt : ∀ b ∈ bindings, b.1 < e.1 := fun b hb =>
      (List.pairwise_append.mp h).2.2 b hb e List.mem_cons_self
    have happ : bindings ++ e :: entries = bindings ++ [e] ++ entries := by simp
    rw [insertAll, List.foldl_cons, insert_of_forall_lt hlt, happ]
    exact ih (happ ▸ h)

/-- A copy has the same bindings, whatever order they are met in. -/
theorem copy_eq (visit : Visit) (h : Sorted env.bindings) : env.copy visit = env := by
  have hnodup : env.names.Nodup := (pairwise_names h).imp ne_of_lt
  have hcopy : insertAll (visit.arrange env.bindings) [] = insertAll env.bindings [] := by
    refine (visit.perm env.bindings).foldl_eq' (fun a ha b hb made => ?_) []
    -- Entries of the same name are the same entry, and others can be put in either order.
    have hvisited (c) : c ∈ visit.arrange env.bindings ↔ c ∈ env.bindings :=
      (visit.perm env.bindings).mem_iff
    by_cases hab : a.1 = b.1
    · rw [List.inj_on_of_nodup_map hnodup ((hvisited a).mp ha) ((hvisited b).mp hb) hab]
    · exact insert_comm (Ne.symm hab) b.2 a.2 made
  have hall : insertAll env.bindings [] = env.bindings := insertAll_of_sorted h
  exact congrArg Environment.mk (hcopy.trans hall)

/-! ## Names -/

/-- The names that are collected and sorted are those of the bindings, in their order. -/
theorem keys_eq (visit : Visit) (h : Sorted env.bindings) : env.keys visit = env.names := by
  have hperm : (env.keys visit).Perm env.names :=
    (List.mergeSort_perm _ _).trans ((visit.perm env.bindings).map _)
  have hsorted : (env.keys visit).Pairwise (· ≤ ·) := by
    refine (List.pairwise_mergeSort ?_ ?_ _).imp of_decide_eq_true
    · simpa using fun _ _ _ => le_trans
    · simpa using le_total
  exact hperm.eq_of_pairwise' hsorted ((pairwise_names h).imp le_of_lt)

theorem mem_names_iff : name ∈ env.names ↔ ∃ v, env.get? name = some v := by
  rw [← Option.isSome_iff_exists, get?, names]
  induction env.bindings with
  | nil => simp
  | cons b rest ih =>
    obtain ⟨x, w⟩ := b
    by_cases hx : name = x
    · simp [hx]
    · simp [hx, List.lookup_cons, beq_false_of_ne hx]

/-- Looking back over the bindings that were made finds the last one. -/
theorem lookup_insertAll (entries bindings : List (String × Value)) (x : String) :
    (insertAll entries bindings).lookup x = (entries.reverse ++ bindings).lookup x := by
  induction entries generalizing bindings with
  | nil => rfl
  | cons e entries ih =>
    have hfirst : (insert e.1 e.2 bindings).lookup x = (e :: bindings).lookup x := by
      by_cases hx : x = e.1
      · rw [hx, lookup_insert_self, List.lookup_cons_self]
      · rw [lookup_insert_of_ne hx, List.lookup_cons, beq_false_of_ne hx]
    rw [insertAll, List.foldl_cons]
    change (insertAll entries (insert e.1 e.2 bindings)).lookup x = _
    rw [ih, List.reverse_cons, List.append_assoc, List.singleton_append, List.lookup_append,
      List.lookup_append, hfirst]

theorem Sorted.insertAll (h : Sorted bindings) (entries : List (String × Value)) :
    Sorted (insertAll entries bindings) :=
  List.foldlRecOn entries _ h fun _ hc e _ => hc.insert e.1 e.2

end Environment

namespace Heap

open Environment

variable {h : Heap} {name x : String} {value v : Value} {op : Operation} {ops : List Operation}

/-! ## One operation -/

/-- The environment and its snapshots lie at different addresses in memory. -/
structure Apart (h : Heap) : Prop where
  env_lt : h.env < h.maps.length
  ne_env : ∀ address ∈ h.snapshots, address ≠ h.env

theorem apart_new : Apart new := ⟨Nat.one_pos, by simp [new]⟩

@[simp] theorem load_set_self {address : Nat} (ha : address < h.maps.length) (env : Environment) :
    load { h with maps := h.maps.set address env } address = env := by
  simp [load, ha]

theorem load_set_of_ne {address address' : Nat} (hne : address' ≠ address) (env : Environment) :
    load { h with maps := h.maps.set address' env } address = h.load address := by
  simp [load, List.getElem?_set_ne hne]

theorem load_append {address : Nat} (ha : address < h.maps.length) (maps : List Environment)
    (snapshots : List Nat) :
    load { h with maps := h.maps ++ maps, snapshots := snapshots } address = h.load address := by
  simp [load, List.getElem?_append_left ha]

theorem define_of_storable (hv : value.isStorable) (h : Heap) (name : String) :
    h.define name value =
      (none, { h with maps := h.maps.set h.env ⟨insert name value h.environment.bindings⟩ }) := by
  simp [define, Environment.define, hv]

/-- A definition that fails changes nothing. -/
theorem define_of_not_storable (hv : value.isStorable = false) (h : Heap) (name : String) :
    h.define name value = (some ⟨name, value⟩, h) := by
  simp [define, Environment.define, hv]

/-- The binding that the operation makes, if any. -/
def Operation.binding? : Operation → Option (String × Value)
  | .define name value => if value.isStorable then some (name, value) else none
  | _ => none

/-- The bindings of the definitions that succeed, in order. -/
def accepted (ops : List Operation) : List (String × Value) := ops.filterMap Operation.binding?

theorem mem_accepted_iff :
    (name, value) ∈ accepted ops ↔ .define name value ∈ ops ∧ value.isStorable := by
  rw [accepted, List.mem_filterMap]
  constructor
  · rintro ⟨op, hop, hb⟩
    cases op <;> grind [Operation.binding?]
  · rintro ⟨hop, hv⟩
    exact ⟨_, hop, by simp [Operation.binding?, hv]⟩

/-- Every operation keeps the environment and its snapshots apart. -/
theorem Apart.perform (ha : h.Apart) (op : Operation) : (h.perform op).Apart := by
  cases op with
  | define name value =>
    cases hv : value.isStorable with
    | true =>
      simp only [Heap.perform, define_of_storable hv]
      exact ⟨by simpa using ha.env_lt, ha.ne_env⟩
    | false => simpa only [Heap.perform, define_of_not_storable hv] using ha
  | snapshot visit =>
    refine ⟨by simpa [Heap.perform, snapshot] using Nat.lt_succ_of_lt ha.env_lt, ?_⟩
    intro address hmem
    -- The new map lies after all the others.
    rcases List.mem_append.mp hmem with hmem | hmem
    · exact ha.ne_env address hmem
    · rw [List.mem_singleton.mp hmem]
      exact ha.env_lt.ne'
  | write number name value =>
    simp only [Heap.perform, write]
    split
    · exact ha
    · exact ⟨by simpa using ha.env_lt, ha.ne_env⟩

/-- An operation makes its own binding in the environment, and no other change. -/
theorem Apart.environment_perform (ha : h.Apart) (op : Operation) :
    (h.perform op).environment = ⟨insertAll op.binding?.toList h.environment.bindings⟩ := by
  cases op with
  | define name value =>
    cases hv : value.isStorable with
    | true =>
      simp only [Heap.perform, define_of_storable hv, Operation.binding?, hv]
      exact load_set_self ha.env_lt _
    | false => simp [Heap.perform, define_of_not_storable hv, Operation.binding?, hv, insertAll]
  | snapshot visit => exact load_append ha.env_lt _ _
  | write number name value =>
    simp only [Heap.perform, write]
    split
    · rfl
    · next address hat =>
      exact load_set_of_ne (ha.ne_env address (List.mem_of_getElem? hat)) _

/-! ## Any sequence of operations -/

theorem Apart.run (ha : h.Apart) (ops : List Operation) : (h.run ops).Apart :=
  List.foldlRecOn ops Heap.perform ha fun _ hk op _ => hk.perform op

/-- The environment has the bindings of the definitions that succeeded, and no other change. -/
theorem Apart.environment_run (ha : h.Apart) (ops : List Operation) :
    (h.run ops).environment = ⟨insertAll (accepted ops) h.environment.bindings⟩ := by
  induction ops using List.reverseRecOn with
  | nil => rfl
  | append_singleton ops op ih =>
    have hrun : h.run (ops ++ [op]) = (h.run ops).perform op := List.foldl_concat ..
    have hops : accepted (ops ++ [op]) = accepted ops ++ op.binding?.toList := by
      rw [accepted, List.filterMap_append, List.filterMap_cons]
      cases op.binding? <;> rfl
    rw [hrun, (ha.run ops).environment_perform, ih, hops, insertAll_append]

theorem sorted_run (ops : List Operation) : Sorted (new.run ops).environment.bindings := by
  rw [apart_new.environment_run]
  exact Sorted.insertAll List.Pairwise.nil _

/-- The last binding of the name that was made is found. -/
theorem get?_run (ops : List Operation) (name : String) :
    (new.run ops).environment.get? name = (accepted ops).reverse.lookup name := by
  rw [apart_new.environment_run, get?, lookup_insertAll]
  exact congrArg (List.lookup name) (List.append_nil _)

theorem get?_run_eq_none_iff :
    (new.run ops).environment.get? name = none ↔
      ∀ value, .define name value ∈ ops → value.isStorable = false := by
  rw [get?_run, List.lookup_eq_none_iff]
  constructor
  · intro h value hop
    by_contra hv
    have hmem := mem_accepted_iff.mpr ⟨hop, Bool.not_eq_false _ ▸ hv⟩
    simpa using h _ (List.mem_reverse.mpr hmem)
  · rintro h ⟨x, value⟩ hmem
    obtain ⟨hop, hv⟩ := mem_accepted_iff.mp (List.mem_reverse.mp hmem)
    grind

/-- A snapshot has the bindings that the environment has when it is taken. -/
theorem load_snapshot (ops : List Operation) (visit : Visit) :
    ((new.run ops).snapshot visit).load (new.run ops).maps.length = (new.run ops).environment := by
  have hload : ((new.run ops).snapshot visit).load (new.run ops).maps.length =
      (new.run ops).environment.copy visit := by
    simp [load, snapshot]
  rw [hload, copy_eq visit (sorted_run ops)]

theorem environment_write (before after : List Operation) (number : Nat) (name : String)
    (value : Value) :
    (new.run (before ++ .write number name value :: after)).environment =
      (new.run (before ++ after)).environment := by
  have hops : accepted (before ++ .write number name value :: after) =
      accepted (before ++ after) := by
    rw [accepted, accepted, List.filterMap_append, List.filterMap_append,
      List.filterMap_cons_none rfl]
  rw [apart_new.environment_run, apart_new.environment_run, hops]

/--
The environment is a map in which the last write wins, listed in the order of the bytes of its
names: a definition fails exactly if its value cannot be stored, and changes nothing then; after any
operations, a name has the value of the last definition of it that succeeded, each such name is
listed once, in whatever order the names are collected, and what was written to snapshots does not
matter.
-/
theorem sorted_last_write_wins :
    (∀ (h : Heap) (name : String) (value : Value),
      ((h.define name value).1 = none ↔ value.isStorable) ∧
        (value.isStorable = false → h.define name value = (some ⟨name, value⟩, h))) ∧
    ∀ ops : List Operation,
      (∀ name, (new.run ops).environment.get? name = (accepted ops).reverse.lookup name) ∧
      (∀ name, (new.run ops).environment.get? name = none ↔
        ∀ value, .define name value ∈ ops → value.isStorable = false) ∧
      (new.run ops).environment.names.Pairwise
        (fun x y => x.toUTF8.data.toList < y.toUTF8.data.toList) ∧
      (∀ name, name ∈ (new.run ops).environment.names ↔
        ∃ value, .define name value ∈ ops ∧ value.isStorable) ∧
      (∀ visit, (new.run ops).environment.keys visit = (new.run ops).environment.names) ∧
      (new.run ops).environment.size = (new.run ops).environment.names.length ∧
      ∀ before number name value after, ops = before ++ .write number name value :: after →
        (new.run ops).environment = (new.run (before ++ after)).environment := by
  refine ⟨fun h name value => ⟨?_, fun hv => define_of_not_storable hv h name⟩, fun ops => ?_⟩
  · cases hv : value.isStorable with
    | true => simp [define_of_storable hv]
    | false => simp [define_of_not_storable hv]
  refine ⟨get?_run ops, fun name => get?_run_eq_none_iff, ?_, fun name => ?_,
    fun visit => keys_eq visit (sorted_run ops), ?_, ?_⟩
  · exact (pairwise_names (sorted_run ops)).imp Text.lt_iff_utf8_lt.mp
  · rw [mem_names_iff, ← Option.ne_none_iff_exists', ne_eq, get?_run_eq_none_iff]
    grind
  · exact (List.length_map _).symm
  · rintro before number name value after rfl
    exact environment_write before after number name value

/-- A name is bound, refused a value that cannot be stored, and bound anew after a snapshot. -/
def rebinding : List Operation :=
  [.define "b" (.boolean true), .define "a" (.literal "hi"), .define "b" .absent,
    .snapshot ⟨id, fun _ => .refl _⟩, .write 0 "b" .empty, .write 0 "c" .empty,
    .define "b" (.boolean false)]

theorem sorted_last_write_wins_rebinding :
    new.define "b" .absent = (some ⟨"b", .absent⟩, new) ∧
      (new.run rebinding).environment.get? "b" = some (.boolean false) ∧
      (new.run rebinding).environment.get? "c" = none ∧
      (new.run rebinding).environment.keys ⟨List.reverse, List.reverse_perm⟩ = ["a", "b"] ∧
      ((new.run rebinding).load 1).names = ["a", "b", "c"] ∧
      (new.run rebinding).environment = (new.run (rebinding.eraseIdx 4)).environment := by
  obtain ⟨hdefine, hrun⟩ := sorted_last_write_wins
  obtain ⟨hget, hnone, -, -, hkeys, -, hwrite⟩ := hrun rebinding
  refine ⟨(hdefine new "b" .absent).2 rfl, (hget "b").trans (by decide), ?_,
    (hkeys _).trans (by decide), by decide, ?_⟩
  · exact (hnone "c").mpr (by simp [rebinding])
  · exact hwrite (rebinding.take 4) 0 "b" .empty (rebinding.drop 5) rfl

end Heap

end Scriptlet
