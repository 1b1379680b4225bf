import Scriptlet.Proofs.Reference

/-!
# What is wrong with a manifest

A manifest is checked rule by rule, and every rule that is broken gives one issue. The rules are stated
here on their own, as relations of a manifest, or an entry of its list of preludes, with an issue. The
issues of a manifest are those of the rules that it breaks, each of them once, in the order of its
fields and then in that of its preludes, so a manifest without issues keeps all rules.

## Main definitions

* `Prelude.Breaks`, `Manifest.Breaks`: the rules, each with its issue
* `Prelude.IsLocal`, `Prelude.IsPinned`: the two kinds of preludes
* `Manifest.IsSound`: a manifest that keeps all rules
* `Manifest.Issue.position`: the place of an issue in the order of fields and preludes

## Main statements

* `Prelude.mem_issues_iff`, `Manifest.mem_issues_iff`: the issues are those of the rules that are broken
* `Manifest.pairwise_issues`: the issues are in order, and none of them is given twice
* `Manifest.issues_spec`: all of this for every manifest
-/

namespace Scriptlet

theorem sublist_ite {α : Type} {c : Prop} [Decidable c] (a : α) :
    (if c then [a] else []).Sublist [a] := by
  split <;> simp

theorem sublist_ite_not {α : Type} {c : Prop} [Decidable c] (a : α) :
    (if c then [] else [a]).Sublist [a] := by
  split <;> simp

/-! ## Preludes -/

namespace Prelude

variable {p : Prelude} {e : Option Prelude} {x y : Issue}

/-- The entry of a list of preludes breaks the rule of the issue. -/
inductive Breaks : Option Prelude → Issue → Prop where
  | absent : Breaks none .absent
  | noOrigin {p : Prelude} (hpath : p.path = "") (hgit : p.git = "") : Breaks (some p) .noOrigin
  | twoOrigins {p : Prelude} (hpath : p.path ≠ "") (hgit : p.git ≠ "") : Breaks (some p) .twoOrigins
  | pinnedPath {p : Prelude} (hpath : p.path ≠ "")
      (h : p.rev ≠ "" ∨ p.tag ≠ "" ∨ p.branch ≠ "" ∨ p.file ≠ "") : Breaks (some p) .pinnedPath
  | noPin {p : Prelude} (hgit : p.git ≠ "") (hrev : p.rev = "") (htag : p.tag = "")
      (hbranch : p.branch = "") : Breaks (some p) .noPin
  | manyPins {p : Prelude} (hgit : p.git ≠ "")
      (h : p.rev ≠ "" ∧ p.tag ≠ "" ∨ p.rev ≠ "" ∧ p.branch ≠ "" ∨ p.tag ≠ "" ∧ p.branch ≠ "") :
      Breaks (some p) .manyPins
  | noFile {p : Prelude} (hgit : p.git ≠ "") (hfile : p.file = "") : Breaks (some p) .noFile

/-- A prelude that is a local file, and gives nothing else. -/
structure IsLocal (p : Prelude) : Prop where
  path : p.path ≠ ""
  git : p.git = ""
  rev : p.rev = ""
  tag : p.tag = ""
  branch : p.branch = ""
  file : p.file = ""

/-- A prelude that is a file of a repository at one revision, tag or branch. -/
structure IsPinned (p : Prelude) : Prop where
  path : p.path = ""
  git : p.git ≠ ""
  reference : ∃ r, p.PinnedTo r
  file : p.file ≠ ""

/-- The place of an issue among those of its prelude. -/
def Issue.rank : Issue → Nat
  | absent => 0
  | noOrigin => 1
  | twoOrigins => 2
  | pinnedPath => 3
  | noPin => 4
  | manyPins => 5
  | noFile => 6

theorem Issue.text_injective : Function.Injective Issue.text := by
  intro x y h
  cases x <;> cases y <;> simp_all [text]

theorem pinCount_eq_zero_iff : p.pinCount = 0 ↔ p.rev = "" ∧ p.tag = "" ∧ p.branch = "" := by
  simp [pinCount, List.countP_eq_zero]

theorem one_lt_pinCount_iff : 1 < p.pinCount ↔
    p.rev ≠ "" ∧ p.tag ≠ "" ∨ p.rev ≠ "" ∧ p.branch ≠ "" ∨ p.tag ≠ "" ∧ p.branch ≠ "" := by
  by_cases hrev : p.rev = "" <;> by_cases htag : p.tag = "" <;> by_cases hbranch : p.branch = "" <;>
    simp [pinCount, hrev, htag, hbranch]

/-- The issues of an entry are those of the rules that it breaks. -/
theorem mem_issues_iff : x ∈ entryIssues e ↔ Breaks e x := by
  cases e with
  | none =>
    rw [entryIssues, List.mem_singleton]
    constructor
    · rintro rfl
      exact .absent
    · rintro ⟨⟩
      rfl
  | some p =>
    have hmany := one_lt_pinCount_iff (p := p)
    have hzero := pinCount_eq_zero_iff (p := p)
    constructor
    · intro h
      simp only [entryIssues, issues, List.mem_append, List.mem_ite_nil_right, List.mem_singleton,
        Bool.and_eq_true, Bool.or_eq_true, beq_iff_eq, bne_iff_ne, decide_eq_true_eq] at h
      rcases h with ((((⟨h, rfl⟩ | ⟨h, rfl⟩) | ⟨h, rfl⟩) | ⟨h, rfl⟩) | ⟨h, rfl⟩) | ⟨h, rfl⟩
      · exact .noOrigin h.1 h.2
      · exact .twoOrigins h.1 h.2
      · refine .pinnedPath h.1 ?_
        rcases h.2 with hpin | hfile
        · have hnot := mt hzero.mpr (Nat.ne_of_gt hpin)
          tauto
        · exact .inr (.inr (.inr hfile))
      · obtain ⟨hrev, htag, hbranch⟩ := hzero.mp h.2
        exact .noPin h.1 hrev htag hbranch
      · exact .manyPins h.1 (hmany.mp h.2)
      · exact .noFile h.1 h.2
    · intro h
      cases h with
      | noOrigin hpath hgit => simp [entryIssues, issues, hpath, hgit]
      | twoOrigins hpath hgit => simp [entryIssues, issues, hpath, hgit]
      | pinnedPath hpath h =>
        have hgiven : p.pinCount > 0 ∨ p.file ≠ "" := by
          by_cases hfile : p.file = ""
          · refine .inl (Nat.pos_of_ne_zero fun h' => ?_)
            have := hzero.mp h'
            tauto
          · exact .inr hfile
        simp [entryIssues, issues, hpath, hgiven]
      | noPin hgit hrev htag hbranch =>
        simp [entryIssues, issues, hgit, hzero.mpr ⟨hrev, htag, hbranch⟩]
      | manyPins hgit h => simp [entryIssues, issues, hgit, hmany.mpr h]
      | noFile hgit hfile => simp [entryIssues, issues, hgit, hfile]

/-- The issues of an entry are in order, and none of them is given twice. -/
theorem pairwise_issues (e : Option Prelude) :
    (entryIssues e).Pairwise fun x y => x.rank < y.rank := by
  cases e with
  | none => exact List.pairwise_singleton _ _
  | some p =>
    have hranks : (entryIssues (some p)).Sublist
        [.noOrigin, .twoOrigins, .pinnedPath, .noPin, .manyPins, .noFile] := by
      exact (((((sublist_ite _).append (sublist_ite _)).append (sublist_ite _)).append
        (sublist_ite _)).append (sublist_ite _)).append (sublist_ite _)
    refine List.Pairwise.sublist hranks ?_
    decide

/-- An entry keeps all rules if it is a prelude of one of the two kinds. -/
theorem issues_eq_nil_iff :
    entryIssues e = [] ↔ ∃ p, e = some p ∧ (p.IsLocal ∨ p.IsPinned) := by
  rw [List.eq_nil_iff_forall_not_mem]
  simp only [mem_issues_iff]
  constructor
  · intro h
    cases e with
    | none => exact absurd .absent (h .absent)
    | some p =>
      refine ⟨p, rfl, ?_⟩
      by_cases hpath : p.path = ""
      · have hgit : p.git ≠ "" := fun hgit => h _ (.noOrigin hpath hgit)
        have hzero : p.pinCount ≠ 0 := fun hzero => by
          obtain ⟨hrev, htag, hbranch⟩ := pinCount_eq_zero_iff.mp hzero
          exact h _ (.noPin hgit hrev htag hbranch)
        have hmany : ¬ 1 < p.pinCount := fun hmany =>
          h _ (.manyPins hgit (one_lt_pinCount_iff.mp hmany))
        exact .inr ⟨hpath, hgit, pinCount_eq_one_iff.mp (by omega), fun hfile => h _ (.noFile hgit hfile)⟩
      · have hgit : p.git = "" := by
          by_contra hgit
          exact h _ (.twoOrigins hpath hgit)
        have hnone := mt (Breaks.pinnedPath hpath) (h .pinnedPath)
        push Not at hnone
        exact .inl ⟨hpath, hgit, hnone.1, hnone.2.1, hnone.2.2.1, hnone.2.2.2⟩
  · rintro ⟨p, rfl, hp | hp⟩ x hx
    · have := hp.git
      have := hp.path
      cases hx <;> simp_all [hp.rev, hp.tag, hp.branch, hp.file]
    · have hone := pinCount_eq_one_iff.mpr hp.reference
      cases hx with
      | noOrigin _ hgit => exact hp.git hgit
      | twoOrigins hpath _ => exact hpath hp.path
      | pinnedPath hpath _ => exact hpath hp.path
      | noPin _ hrev htag hbranch =>
        have := pinCount_eq_zero_iff.mpr ⟨hrev, htag, hbranch⟩
        omega
      | manyPins _ h =>
        have := one_lt_pinCount_iff.mpr h
        omega
      | noFile _ hfile => exact hp.file hfile

end Prelude

/-! ## Manifests -/

namespace Manifest

variable {m : Manifest} {x y : Issue} {index : Nat} {entries : List (Option Prelude)}

/-- The manifest breaks the rule of the issue. -/
inductive Breaks (m : Manifest) : Issue → Prop where
  | noName (h : m.name = "") : Breaks m .noName
  | noMain (h : m.main = "") : Breaks m .noMain
  | policy (hstop : m.onError ≠ "stop") (hcontinue : m.onError ≠ "continue") :
      Breaks m (.policy m.onError)
  | negativeDepth (h : m.maxDepth < 0) : Breaks m .negativeDepth
  | logLevel (h : m.log.level ∉ ["debug", "info", "warn", "error"]) : Breaks m (.logLevel m.log.level)
  | logFormat (h : m.log.format ∉ ["text", "json"]) : Breaks m (.logFormat m.log.format)
  | entry {i : Nat} {e : Option Prelude} {x : Prelude.Issue} (he : m.entries[i]? = some e)
      (hx : Prelude.Breaks e x) : Breaks m (.entry i x)

/-- A manifest that keeps all rules. -/
structure IsSound (m : Manifest) : Prop where
  name : m.name ≠ ""
  main : m.main ≠ ""
  policy : m.onError = "stop" ∨ m.onError = "continue"
  maxDepth : 0 ≤ m.maxDepth
  level : m.log.level ∈ ["debug", "info", "warn", "error"]
  format : m.log.format ∈ ["text", "json"]
  entries : ∀ e ∈ m.entries, ∃ p, e = some p ∧ (p.IsLocal ∨ p.IsPinned)

/-- The place of the field that an issue is about. -/
def Issue.field : Issue → Fin 7
  | noName => 0
  | noMain => 1
  | policy _ => 2
  | negativeDepth => 3
  | logLevel _ => 4
  | logFormat _ => 5
  | entry _ _ => 6

/-- The place of an issue: its field, and in the list of preludes its entry and its rule. -/
def Issue.position (x : Issue) : Fin 7 ×ₗ Nat ×ₗ Nat :=
  match x with
  | entry i y => toLex (x.field, toLex (i, y.rank))
  | _ => toLex (x.field, toLex (0, 0))

/-- The issues of a list of preludes are those of its entries, each with the index of its entry. -/
theorem mem_entriesIssues_iff : x ∈ entriesIssues index entries ↔
    ∃ i e y, entries[i]? = some e ∧ y ∈ Prelude.entryIssues e ∧ x = .entry (index + i) y := by
  induction entries generalizing index with
  | nil => simp [entriesIssues]
  | cons e es ih =>
    rw [entriesIssues, List.mem_append, List.mem_map, ih]
    constructor
    · rintro (⟨y, hy, rfl⟩ | ⟨i, e', y, he, hy, rfl⟩)
      · exact ⟨0, e, y, rfl, hy, rfl⟩
      · exact ⟨i + 1, e', y, he, hy, by rw [Nat.add_assoc, Nat.add_comm 1]⟩
    · rintro ⟨i, e', y, he, hy, rfl⟩
      cases i with
      | zero =>
        cases he
        exact .inl ⟨y, hy, rfl⟩
      | succ i => exact .inr ⟨i, e', y, he, hy, by rw [Nat.add_assoc, Nat.add_comm 1]⟩

/-- The issues of a manifest are those of the rules that it breaks. -/
theorem mem_issues_iff : x ∈ m.issues ↔ m.Breaks x := by
  have hpolicy : (Policy.ofName? m.onError).isNone ↔ m.onError ≠ "stop" ∧ m.onError ≠ "continue" := by
    unfold Policy.ofName?
    split <;> simp_all
  constructor
  · intro h
    simp only [issues, List.mem_append, List.mem_ite_nil_right, List.mem_ite_nil_left,
      List.mem_singleton, beq_iff_eq, List.contains_iff_mem, hpolicy] at h
    rcases h with (((((⟨h, rfl⟩ | ⟨h, rfl⟩) | ⟨h, rfl⟩) | ⟨h, rfl⟩) | ⟨h, rfl⟩) | ⟨h, rfl⟩) | h
    · exact .noName h
    · exact .noMain h
    · exact .policy h.1 h.2
    · exact .negativeDepth h
    · exact .logLevel h
    · exact .logFormat h
    · obtain ⟨i, e, y, he, hy, rfl⟩ := mem_entriesIssues_iff.mp h
      rw [Nat.zero_add]
      exact .entry he (Prelude.mem_issues_iff.mp hy)
  · intro h
    simp only [issues, List.mem_append]
    cases h with
    | noName h => simp [h]
    | noMain h => simp [h]
    | policy hstop hcontinue => simp [hpolicy.mpr ⟨hstop, hcontinue⟩]
    | negativeDepth h => simp [h]
    | logLevel h => simp_all
    | logFormat h => simp_all
    | @entry i e y he hy =>
      refine .inr (mem_entriesIssues_iff.mpr ⟨i, e, y, he, Prelude.mem_issues_iff.mpr hy, ?_⟩)
      rw [Nat.zero_add]

/-! ## Order -/

theorem position_entry_lt_iff {i j : Nat} {x y : Prelude.Issue} :
    (Issue.entry i x).position < (Issue.entry j y).position ↔ i < j ∨ i = j ∧ x.rank < y.rank := by
  simp [Issue.position, Issue.field, Prod.Lex.toLex_lt_toLex]

theorem pairwise_entriesIssues (index : Nat) (entries : List (Option Prelude)) :
    (entriesIssues index entries).Pairwise fun x y => x.position < y.position := by
  induction entries generalizing index with
  | nil => exact .nil
  | cons e es ih =>
    rw [entriesIssues, List.pairwise_append, List.pairwise_map]
    refine ⟨(Prelude.pairwise_issues e).imp fun h => ?_, ih (index + 1), fun x hx y hy => ?_⟩
    · exact position_entry_lt_iff.mpr (.inr ⟨rfl, h⟩)
    · obtain ⟨x, -, rfl⟩ := List.mem_map.mp hx
      obtain ⟨i, -, y, -, -, rfl⟩ := mem_entriesIssues_iff.mp hy
      exact position_entry_lt_iff.mpr (.inl (by omega))

/-- The issues of a manifest are in order, and none of them is given twice. -/
theorem pairwise_issues (m : Manifest) : m.issues.Pairwise fun x y => x.position < y.position := by
  -- In front of the preludes there is at most one issue for each field.
  have hfields := ((((sublist_ite (c := m.name == "") Issue.noName).append
    (sublist_ite (c := m.main == "") .noMain)).append
    (sublist_ite (c := (Policy.ofName? m.onError).isNone) (.policy m.onError))).append
    (sublist_ite (c := m.maxDepth < 0) .negativeDepth)).append
    (sublist_ite_not (c := ["debug", "info", "warn", "error"].contains m.log.level)
      (.logLevel m.log.level))
  have hall := hfields.append
    (sublist_ite_not (c := ["text", "json"].contains m.log.format) (.logFormat m.log.format))
  rw [issues, List.pairwise_append]
  refine ⟨List.Pairwise.sublist hall ?_, pairwise_entriesIssues 0 m.entries, fun x hx y hy => ?_⟩
  · simp [Issue.position, Issue.field, Prod.Lex.toLex_lt_toLex]
  · obtain ⟨i, -, y, -, -, rfl⟩ := mem_entriesIssues_iff.mp hy
    have hx := hall.subset hx
    simp only [List.cons_append, List.nil_append, List.mem_cons, List.not_mem_nil, or_false] at hx
    rcases hx with rfl | rfl | rfl | rfl | rfl | rfl <;>
      simp [Issue.position, Issue.field, Prod.Lex.toLex_lt_toLex]

/-! ## Messages -/

/-- How the text of an issue about a field starts. -/
def front (f : Fin 7) : List Char :=
  (["name ", "main ", "on_er", "max_d", "log.l", "log.f", "prelu"].get f).toList

theorem front_injective : Function.Injective front := by decide

theorem toList_text_entry (i : Nat) (y : Prelude.Issue) : (Issue.entry i y).text.toList =
    "prelude[".toList ++ (Nat.toDigits 10 i ++ ']' :: (": ".toList ++ y.text.toList)) := by
  change ("prelude[" ++ Nat.repr i ++ "]: " ++ y.text).toList = _
  have hclose : "]: ".toList = ']' :: ": ".toList := rfl
  simp only [String.toList_append, Nat.toList_repr, hclose, List.append_assoc, List.cons_append]

theorem front_isPrefix (x : Issue) : front x.field <+: x.text.toList := by
  have happend (f : Fin 7) {s : String} (h : front f <+: s.toList) (t : String) :
      front f <+: (s ++ t).toList := by
    rw [String.toList_append]
    exact h.trans (List.prefix_append _ _)
  have hentry : front 6 <+: "prelude[".toList := by decide
  cases x with
  | noName | noMain | negativeDepth => decide
  | policy s => exact happend 2 (s := "on_error must be stop or continue, got ") (by decide) _
  | logLevel s => exact happend 4 (happend 4 (s := "log.level ") (by decide) _) _
  | logFormat s => exact happend 5 (happend 5 (s := "log.format ") (by decide) _) _
  | entry i y =>
    rw [toList_text_entry]
    exact hentry.trans (List.prefix_append _ _)

theorem field_eq_of_text_eq (h : x.text = y.text) : x.field = y.field := by
  have hx := front_isPrefix x
  rw [h] at hx
  have hlength : ∀ f g : Fin 7, (front f).length = (front g).length := by decide
  exact front_injective ((List.prefix_of_prefix_length_le hx (front_isPrefix y) (hlength _ _).le).eq_of_length
    (hlength _ _))

/-- The digits of an index end at the bracket behind them. -/
theorem digits_append_inj {i j : Nat} {cs ds : List Char}
    (h : Nat.toDigits 10 i ++ ']' :: cs = Nat.toDigits 10 j ++ ']' :: ds) : i = j ∧ cs = ds := by
  have hfront (n : Nat) (es : List Char) :
      (Nat.toDigits 10 n ++ ']' :: es).takeWhile (· != ']') = Nat.toDigits 10 n := by
    rw [List.takeWhile_append_of_pos]
    · simp
    · intro c hc
      have hdigit : c.isDigit := Nat.isDigit_of_mem_toDigits (by decide) (by decide) hc
      rw [bne_iff_ne]
      rintro rfl
      exact absurd hdigit (by decide)
  have hdigits : Nat.toDigits 10 i = Nat.toDigits 10 j := by rw [← hfront i cs, h, hfront]
  refine ⟨?_, ?_⟩
  · rw [← Nat.ofDigitChars_ten_toDigits (n := i), hdigits, Nat.ofDigitChars_ten_toDigits]
  · simpa [hdigits] using h

/-- Issues with the same text have the same place. -/
theorem position_eq_of_text_eq (h : x.text = y.text) : x.position = y.position := by
  have hfield := field_eq_of_text_eq h
  by_cases hentry : ∃ i a j b, x = .entry i a ∧ y = .entry j b
  · obtain ⟨i, a, j, b, rfl, rfl⟩ := hentry
    rw [← String.toList_inj, toList_text_entry, toList_text_entry, List.append_cancel_left_eq] at h
    obtain ⟨rfl, htext⟩ := digits_append_inj h
    rw [List.append_cancel_left_eq, String.toList_inj] at htext
    rw [Prelude.Issue.text_injective htext]
  · cases x <;> cases y <;> simp_all [Issue.field, Issue.position]

/--
A manifest has no issues exactly if it keeps all rules: its name and its main script are given, the
policy, the level and the format of its log are known, its bound on nesting is not negative, and each
entry of its list of preludes is a local file that gives nothing else, or a file of a repository at one
revision, tag or branch. Otherwise there is one issue for every rule that is broken, in the order of
the fields and then of the preludes, each with the index of its entry and with a text of its own.
-/
theorem issues_spec (m : Manifest) :
    (m.issues = [] ↔ m.IsSound) ∧ (∀ x, x ∈ m.issues ↔ m.Breaks x) ∧
      (m.issues.Pairwise fun x y => x.position < y.position) ∧ (m.issues.map Issue.text).Nodup := by
  have hsound : (∀ x, ¬ m.Breaks x) ↔ m.IsSound := by
    constructor
    · intro h
      refine ⟨fun hn => h _ (.noName hn), fun hm => h _ (.noMain hm), ?_,
        not_lt.mp fun hd => h _ (.negativeDepth hd), ?_, ?_, fun e he => ?_⟩
      · by_contra hp
        push Not at hp
        exact h _ (.policy hp.1 hp.2)
      · by_contra hl
        exact h _ (.logLevel hl)
      · by_contra hf
        exact h _ (.logFormat hf)
      · obtain ⟨i, hi⟩ := List.getElem?_of_mem he
        rw [← Prelude.issues_eq_nil_iff, List.eq_nil_iff_forall_not_mem]
        exact fun x hx => h _ (.entry hi (Prelude.mem_issues_iff.mp hx))
    · intro h x hx
      cases hx with
      | noName hn => exact h.name hn
      | noMain hm => exact h.main hm
      | policy hstop hcontinue => exact h.policy.elim hstop hcontinue
      | negativeDepth hd => exact absurd h.maxDepth (not_le.mpr hd)
      | logLevel hl => exact hl h.level
      | logFormat hf => exact hf h.format
      | entry he hx =>
        have hnil := Prelude.issues_eq_nil_iff.mpr (h.entries _ (List.mem_of_getElem? he))
        exact List.eq_nil_iff_forall_not_mem.mp hnil _ (Prelude.mem_issues_iff.mpr hx)
  refine ⟨?_, fun x => mem_issues_iff, pairwise_issues m, ?_⟩
  · rw [List.eq_nil_iff_forall_not_mem, ← hsound]
    simp only [mem_issues_iff]
  · refine List.pairwise_map.mpr ((pairwise_issues m).imp fun hlt heq => ?_)
    exact hlt.ne (position_eq_of_text_eq heq)

/-- An entry that is absent, and one that breaks four rules. -/
example :
    let p : Prelude := { path := "p", git := "r", rev := "1", tag := "2" }
    let m : Manifest :=
      { name := "a", main := "m", onError := "stop", log := ⟨"info", "text"⟩, entries := [none, some p] }
    m.issues = [.entry 0 .absent, .entry 1 .twoOrigins, .entry 1 .pinnedPath, .entry 1 .manyPins,
      .entry 1 .noFile] := by
  decide

end Manifest

end Scriptlet
