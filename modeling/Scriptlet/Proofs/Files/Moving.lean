import Mathlib
import Scriptlet.Files.Tree

/-!
# Trees and what moves in them

In a tree everything lies in a directory, so nothing is below a place that is vacant. What an operation
leaves is said entry by entry: directories that are made add to a tree only what is missing, removing
a place empties it, and moving a place to a vacant one takes along all that is below it. Each of them
works at one place, and leaves alone what is elsewhere.

## Main definitions

* `FileTree.IsTree`: every entry lies in a directory
* `FileTree.AgreeOff`: two trees that differ at and below one place only
* `FileTree.SameOutside`: the same, but directories may have been made on the way to the place

## Main statements

* `FileTree.IsTree.eq_none`: nothing is below a vacant place
* `FileTree.entryAt?_putDirs`, `FileTree.entryAt?_remove_below`: the entries after an operation
* `FileTree.entryAt?_move_target`, `FileTree.entryAt?_move_of_not_below`: what was moved, and the rest
* `FileTree.exists_freshName`: a fresh name is the name of nothing
-/

namespace Scriptlet.FileTree

variable {t t' t'' : FileTree} {place source target p q : List String}

/-- All that is above an entry is a directory. -/
def IsTree (t : FileTree) : Prop :=
  ∀ p q, q <+: p → q ≠ p → (t.entryAt? p).isSome → t.entryAt? q = some .directory

/-- The two trees have the same entries, except at the place and below it. -/
def AgreeOff (place : List String) (t t' : FileTree) : Prop :=
  ∀ q, ¬ place <+: q → t'.entryAt? q = t.entryAt? q

/--
The two trees are the same everywhere but below the place, except for directories on the way to it
that were missing and were made.
-/
def SameOutside (place : List String) (t t' : FileTree) : Prop :=
  ∀ q, ¬ place <+: q → t'.entryAt? q = t.entryAt? q ∨
    q <+: place ∧ t.entryAt? q = none ∧ t'.entryAt? q = some .directory

theorem AgreeOff.refl (place : List String) (t : FileTree) : AgreeOff place t t := fun _ _ => rfl

theorem AgreeOff.trans (h : AgreeOff place t t') (h' : AgreeOff place t' t'') :
    AgreeOff place t t'' := fun q hq => (h' q hq).trans (h q hq)

/-- Nothing is below a vacant place. -/
theorem IsTree.eq_none (h : t.IsTree) (hp : t.entryAt? p = none) (hq : p <+: q) :
    t.entryAt? q = none := by
  by_cases hne : p = q
  · rwa [← hne]
  · by_contra hsome
    have hdir := h q p hq hne (Option.isSome_iff_ne_none.mpr hsome)
    simp [hp] at hdir

theorem isSome_entryAt?_of_mem {e : Entry} (h : (p, e) ∈ t.entries) : (t.entryAt? p).isSome := by
  by_cases hp : p = []
  · simp [hp]
  · rw [entryAt?, if_neg (by simpa using hp), List.lookup_isSome_iff]
    exact ⟨_, h, by simp⟩

theorem exists_mem_of_isSome (hp : p ≠ []) (h : (t.entryAt? p).isSome) : ∃ e, (p, e) ∈ t.entries := by
  rw [entryAt?, if_neg (by simpa using hp), List.lookup_isSome_iff] at h
  obtain ⟨⟨r, e⟩, hmem, hr⟩ := h
  obtain rfl : p = r := by simpa using hr
  exact ⟨e, hmem⟩

/-- It is enough that the entries that are listed lie in directories. -/
theorem isTree_iff : t.IsTree ↔
    ∀ x ∈ t.entries, ∀ n < x.1.length, t.entryAt? (x.1.take n) = some .directory := by
  constructor
  · intro h x hx n hn
    refine h x.1 _ (List.take_prefix n x.1) (fun he => ?_) (isSome_entryAt?_of_mem hx)
    have hlength := congrArg List.length he
    rw [List.length_take] at hlength
    omega
  · intro h p q hq hne hsome
    have hp : p ≠ [] := by
      rintro rfl
      exact hne (List.prefix_nil.mp hq)
    obtain ⟨e, he⟩ := exists_mem_of_isSome hp hsome
    rw [List.prefix_iff_eq_take.mp hq]
    exact h (p, e) he q.length (hq.length_le.lt_of_ne fun heq => hne (hq.eq_of_length heq))

deriving instance DecidableEq for Entry

instance (t : FileTree) : Decidable t.IsTree := decidable_of_iff _ isTree_iff.symm

/-! ## Directories -/

theorem entryAt?_foldl_take (ns : List Nat) (t : FileTree) : (ns.foldl (fun t n =>
      if (t.entryAt? (place.take n)).isSome then t else t.put (place.take n) .directory) t).entryAt? q =
    (t.entryAt? q).or (if ∃ n ∈ ns, place.take n = q then some .directory else none) := by
  induction ns generalizing t with
  | nil => simp
  | cons n ns ih =>
    rw [List.foldl_cons, ih]
    simp only [List.mem_cons, exists_eq_or_imp]
    by_cases hq : place.take n = q
    · subst hq
      cases h : t.entryAt? (place.take n) with
      | some e => simp [h]
      | none =>
        have hne : place.take n ≠ [] := by
          intro hnil
          simp [hnil] at h
        simp [entryAt?_put_self t .directory hne]
    · have hkept : (if (t.entryAt? (place.take n)).isSome then t
          else t.put (place.take n) .directory).entryAt? q = t.entryAt? q := by
        split
        · rfl
        · exact entryAt?_put_of_ne t _ (Ne.symm hq)
      simp only [hkept, hq, false_or]

/-- Directories that are made stand where nothing was. -/
theorem entryAt?_putDirs (t : FileTree) (place q : List String) : (t.putDirs place).entryAt? q =
    (t.entryAt? q).or (if q <+: place then some .directory else none) := by
  have htake : (∃ n ∈ List.range (place.length + 1), place.take n = q) ↔ q <+: place := by
    constructor
    · rintro ⟨n, -, rfl⟩
      exact List.take_prefix n place
    · intro h
      refine ⟨q.length, ?_, (List.prefix_iff_eq_take.mp h).symm⟩
      have := h.length_le
      rw [List.mem_range]
      omega
  simp only [putDirs, entryAt?_foldl_take, htake]

/-! ## Removing and moving -/

theorem entryAt?_of_ne_nil (h : q ≠ []) (t : FileTree) : t.entryAt? q = t.entries.lookup q := by
  simp [entryAt?, h]

theorem ne_nil_of_below (hp : p ≠ []) (hq : p <+: q) : q ≠ [] := by
  rintro rfl
  exact hp (List.prefix_nil.mp hq)

theorem entryAt?_remove_below (hp : p ≠ []) (hq : p <+: q) (t : FileTree) :
    (t.remove p).entryAt? q = none := by
  rw [entryAt?_of_ne_nil (ne_nil_of_below hp hq), List.lookup_eq_none_iff]
  rintro ⟨r, e⟩ hr
  have hkept := (List.mem_filter.mp hr).2
  rw [bne_iff_ne]
  rintro rfl
  simp [List.isPrefixOf_iff_prefix.mpr hq] at hkept

theorem lookup_filter_of_forall {f : List String × Entry → Bool} (h : ∀ e, f (q, e) = true)
    (l : List (List String × Entry)) : (l.filter f).lookup q = l.lookup q := by
  induction l with
  | nil => rfl
  | cons x l ih =>
    obtain ⟨r, e⟩ := x
    by_cases hf : f (r, e)
    · rw [List.filter_cons_of_pos hf, List.lookup_cons, List.lookup_cons, ih]
    · have hne : q ≠ r := by
        rintro rfl
        exact hf (h e)
      rw [List.filter_cons_of_neg hf, ih, List.lookup_cons, beq_false_of_ne hne]

theorem agreeOff_remove (p : List String) (t : FileTree) : AgreeOff p t (t.remove p) := by
  intro q hq
  unfold entryAt?
  rw [remove, lookup_filter_of_forall]
  simpa [← List.isPrefixOf_iff_prefix] using hq

/-- A look-up after the keys have changed, if only one of the keys became the one that is looked up. -/
theorem lookup_map_key {f : List String → List String} {l : List (List String × Entry)}
    (h : ∀ x ∈ l, f x.1 = q ↔ x.1 = p) : (l.map fun x => (f x.1, x.2)).lookup q = l.lookup p := by
  induction l with
  | nil => rfl
  | cons x l ih =>
    rw [List.forall_mem_cons] at h
    have hkey : (q == f x.1) = (p == x.1) := by
      rw [Bool.eq_iff_iff, beq_iff_eq, beq_iff_eq, eq_comm, h.1, eq_comm]
    rw [List.map_cons, List.lookup_cons, List.lookup_cons, hkey, ih h.2]

/-- Where a place is after a move. -/
def relocated (source target p : List String) : List String :=
  if source <+: p then target ++ p.drop source.length else p

theorem move_eq (t : FileTree) (source target : List String) :
    t.move source target = ⟨t.entries.map fun x => (relocated source target x.1, x.2)⟩ := by
  unfold move
  congr 2
  funext ⟨p, e⟩
  simp only [relocated, List.isPrefixOf_iff_prefix]
  split <;> rfl

/-- What is moved to a place where nothing was keeps its order below that place. -/
theorem entryAt?_move_target (hs : source ≠ []) (ht : target ≠ [])
    (hvacant : ∀ q, t.entryAt? (target ++ q) = none) (q : List String) :
    (t.move source target).entryAt? (target ++ q) = t.entryAt? (source ++ q) := by
  rw [entryAt?_of_ne_nil (by simp [ht]), entryAt?_of_ne_nil (by simp [hs]), move_eq]
  refine lookup_map_key fun x hx => ?_
  unfold relocated
  split_ifs with hbelow
  · obtain ⟨r, hr⟩ := hbelow
    rw [← hr, List.drop_left, List.append_cancel_left_eq, List.append_cancel_left_eq]
  · constructor
    · intro he
      have hlookup := hvacant q
      rw [entryAt?_of_ne_nil (by simp [ht]), List.lookup_eq_none_iff] at hlookup
      simpa [he] using hlookup x hx
    · intro he
      exact absurd ⟨q, he.symm⟩ hbelow

/-- What is elsewhere stays as it is. -/
theorem entryAt?_move_of_not_below (hs : ¬ source <+: q) (ht : ¬ target <+: q) :
    (t.move source target).entryAt? q = t.entryAt? q := by
  by_cases hq : q = []
  · rw [hq, entryAt?_nil, entryAt?_nil]
  rw [entryAt?_of_ne_nil hq, entryAt?_of_ne_nil hq, move_eq]
  refine lookup_map_key fun x _ => ?_
  unfold relocated
  split_ifs with hbelow
  · constructor
    · intro he
      exact absurd ⟨_, he⟩ ht
    · intro he
      exact absurd (he ▸ hbelow) hs
  · rfl

/-! ## Outside of a place -/

theorem SameOutside.refl (place : List String) (t : FileTree) : SameOutside place t t :=
  fun _ _ => .inl rfl

theorem SameOutside.trans (h : SameOutside place t t') (h' : SameOutside place t' t'') :
    SameOutside place t t'' := by
  intro q hq
  rcases h q hq with hsame | ⟨hpre, hnone, hmade⟩
  · rcases h' q hq with hsame' | ⟨hpre', hnone', hmade'⟩
    · exact .inl (hsame'.trans hsame)
    · exact .inr ⟨hpre', hsame ▸ hnone', hmade'⟩
  · rcases h' q hq with hsame' | ⟨-, hnone', -⟩
    · exact .inr ⟨hpre, hnone, hsame'.trans hmade⟩
    · simp [hmade] at hnone'

/-- What happens below a place happens below all that is above it. -/
theorem SameOutside.of_prefix (h : SameOutside target t t') (ht : place <+: target) :
    SameOutside place t t' := by
  intro q hq
  rcases h q fun hp => hq (ht.trans hp) with hsame | ⟨hway, hmade⟩
  · exact .inl hsame
  · exact .inr ⟨(List.prefix_or_prefix_of_prefix hway ht).resolve_right hq, hmade⟩

theorem AgreeOff.sameOutside (h : AgreeOff target t t') (ht : place <+: target) :
    SameOutside place t t' :=
  SameOutside.of_prefix (fun q hq => .inl (h q hq)) ht

theorem agreeOff_put (t : FileTree) (place : List String) (e : Entry) :
    AgreeOff place t (t.put place e) := by
  intro q hq
  refine entryAt?_put_of_ne t e ?_
  rintro rfl
  exact hq List.prefix_rfl

/-- Directories are made below the place or on the way to it. -/
theorem sameOutside_putDirs {inner : List String} (h : place <+: inner) (ht : target <+: inner)
    (t : FileTree) : SameOutside place t (t.putDirs target) := by
  intro q hq
  rw [entryAt?_putDirs]
  cases he : t.entryAt? q with
  | some e => exact .inl rfl
  | none =>
    split_ifs with hmade
    · have hway := List.prefix_or_prefix_of_prefix (hmade.trans ht) h
      exact .inr ⟨hway.resolve_right hq, rfl, rfl⟩
    · exact .inl rfl

theorem sameOutside_putFile (h : place <+: target) (t : FileTree) (bytes : ByteArray) :
    SameOutside place t (t.putFile target bytes) :=
  (sameOutside_putDirs h (List.dropLast_prefix target) t).trans
    ((agreeOff_put _ target _).sameOutside h)

theorem sameOutside_putFiles (h : place <+: target) (t : FileTree)
    (files : List (String × ByteArray)) : SameOutside place t (t.putFiles target files) := by
  refine (sameOutside_putDirs h List.prefix_rfl t).trans ?_
  unfold putFiles
  generalize t.putDirs target = t
  induction files generalizing t with
  | nil => exact .refl place t
  | cons file files ih =>
    rw [List.foldl_cons]
    exact (sameOutside_putFile (h.trans (List.prefix_append _ _)) t file.2).trans (ih _)

theorem sameOutside_remove (h : place <+: target) (t : FileTree) :
    SameOutside place t (t.remove target) :=
  (agreeOff_remove target t).sameOutside h

theorem sameOutside_move (hs : place <+: source) (ht : place <+: target) (t : FileTree) :
    SameOutside place t (t.move source target) :=
  fun _ hq => .inl (entryAt?_move_of_not_below (fun h => hq (hs.trans h)) fun h => hq (ht.trans h))

/-! ## Fresh names -/

theorem toString_injective : Function.Injective (toString : Nat → String) := by
  intro m n h
  have hdigits : Nat.toDigits 10 m = Nat.toDigits 10 n := by
    rw [← Nat.toList_repr, ← Nat.toList_repr]
    exact congrArg String.toList h
  rw [← Nat.ofDigitChars_ten_toDigits (n := m), hdigits, Nat.ofDigitChars_ten_toDigits]

/-- There are more numbers to try than entries, so one of the names is free. -/
theorem exists_freshName (t : FileTree) (dir : List String) (front : String) :
    ∃ n : Nat, t.freshName dir front = front ++ toString n ∧
      t.entryAt? (dir ++ [t.freshName dir front]) = none := by
  let key (n : Nat) : List String := dir ++ [front ++ toString n]
  have hinj : Function.Injective key := by
    intro m n h
    have hname : front ++ toString m = front ++ toString n := by simpa [key] using h
    exact toString_injective (by simpa [← String.toList_inj] using hname)
  have hfree : ∃ n ∈ List.range (t.entries.length + 1), (t.entryAt? (key n)).isNone := by
    by_contra! hall
    have hsubset : (List.range (t.entries.length + 1)).map key ⊆ t.entries.map Prod.fst := by
      intro p hp
      obtain ⟨n, hn, rfl⟩ := List.mem_map.mp hp
      by_contra hnot
      have hnone : t.entryAt? (key n) = none := by
        rw [entryAt?_of_ne_nil (by simp [key]), List.lookup_eq_none_iff]
        intro x hx
        rw [bne_iff_ne]
        intro he
        exact hnot (he ▸ List.mem_map_of_mem hx)
      exact hall n hn (by simp [hnone])
    have hnodup := (List.nodup_range (n := t.entries.length + 1)).map hinj
    have hlength := (hnodup.subperm hsubset).length_le
    simp only [List.length_map, List.length_range] at hlength
    omega
  obtain ⟨n, hn⟩ := Option.isSome_iff_exists.mp (List.find?_isSome.mpr hfree)
  have hname : t.freshName dir front = front ++ toString n := by
    change front ++ toString (((List.range (t.entries.length + 1)).find? fun n =>
      (t.entryAt? (key n)).isNone).getD 0) = _
    rw [hn, Option.getD_some]
  refine ⟨n, hname, ?_⟩
  have hnone := List.find?_some hn
  rw [hname]
  exact Option.isNone_iff_eq_none.mp hnone

end Scriptlet.FileTree
