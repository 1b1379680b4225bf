import Scriptlet.Proofs.Evaluation.Rules
import Scriptlet.Proofs.Number.Bits

/-!
# Equality of values

Equality looks at the kind of a value first and then at what it holds, down to what the assignments
in it have assigned. Numbers are compared as IEEE 754 has it, and what is no value at all equals
nothing. So equality is symmetric and transitive, and the values that equal themselves are those that
hold neither what is no number nor what is no value.

## Main definitions

* `Number.IsZero`: the two zeros
* `Value.Same`: equality, with one rule for each kind
* `Value.parts`: a value and all that it holds
* `Evaluation.Leaves`: an evaluation has no effect on the state

## Main statements

* `Number.beq_iff`: numbers are equal unless they are none, and so are the two zeros
* `Value.equal_iff_same`: the rules say what equality decides
* `Value.equal_self_iff`: which values equal themselves
* `Evaluation.ends_condition_of_swap`: an equality test with its sides swapped
-/

namespace Scriptlet

namespace Number

section Equality

open Float.Model UnpackedFloat

variable {a b c : Float}

/-- One of the two zeros. -/
def IsZero (v : Float) : Prop := v = 0 ∨ v = -0

theorem isZero_iff : IsZero a ↔ ∃ s, a.toModel.unpack = .zero s := by
  have hpos : (0 : Float).toModel.unpack = .zero .positive := by rfl
  have hneg : (-0 : Float).toModel.unpack = .zero .negative := by rfl
  constructor
  · rintro (rfl | rfl)
    · exact ⟨_, hpos⟩
    · exact ⟨_, hneg⟩
  · rintro ⟨s, h⟩
    cases s with
    | positive => exact .inl (eq_of_unpack_eq (h.trans hpos.symm))
    | negative => exact .inr (eq_of_unpack_eq (h.trans hneg.symm))

theorem isNaN_eq_false_iff : a.isNaN = false ↔ a.toModel.unpack ≠ .notANumber := by
  change a.toModel.unpack.isNaN = false ↔ _
  cases a.toModel.unpack <;> simp [UnpackedFloat.isNaN]

theorem IsZero.isNaN (h : IsZero a) : a.isNaN = false := by
  obtain ⟨s, hs⟩ := isZero_iff.mp h
  exact isNaN_eq_false_iff.mpr (by simp [hs])

/-- Numbers are equal to themselves unless they are none, and so are the two zeros to each other. -/
theorem beq_iff : (a == b) = true ↔
    a.isNaN = false ∧ b.isNaN = false ∧ (a = b ∨ IsZero a ∧ IsZero b) := by
  constructor
  · intro h
    have hc := beq_iff_compare.mp h
    have ha : a.isNaN = false := by
      refine isNaN_eq_false_iff.mpr fun ha => ?_
      rw [ha] at hc
      cases hc
    obtain hab | ⟨s, t, hs, ht⟩ := eq_or_zero_of_compare hc
    · obtain rfl := eq_of_unpack_eq hab
      exact ⟨ha, ha, .inl rfl⟩
    · have hb : IsZero b := isZero_iff.mpr ⟨t, ht⟩
      exact ⟨ha, hb.isNaN, .inr ⟨isZero_iff.mpr ⟨s, hs⟩, hb⟩⟩
  · rintro ⟨ha, -, rfl | ⟨hza, hzb⟩⟩
    · exact beq_iff_compare.mpr (compare_self (isNaN_eq_false_iff.mp ha))
    · obtain ⟨s, hs⟩ := isZero_iff.mp hza
      obtain ⟨t, ht⟩ := isZero_iff.mp hzb
      rw [beq_iff_compare, hs, ht]
      rfl

theorem beq_symm (h : (a == b) = true) : (b == a) = true := by
  obtain ⟨ha, hb, hab⟩ := beq_iff.mp h
  exact beq_iff.mpr ⟨hb, ha, hab.imp Eq.symm And.symm⟩

theorem beq_trans (hab : (a == b) = true) (hbc : (b == c) = true) : (a == c) = true := by
  obtain ⟨ha, -, rfl | ⟨hza, hzb⟩⟩ := beq_iff.mp hab
  · exact hbc
  · obtain ⟨-, hc, rfl | ⟨-, hzc⟩⟩ := beq_iff.mp hbc
    · exact hab
    · exact beq_iff.mpr ⟨ha, hc, .inr ⟨hza, hzc⟩⟩

end Equality

end Number

namespace Value

variable {u v w : Value}

/-- Equality, with one rule for each kind of value. -/
inductive Same : Value → Value → Prop where
  | number {a b : Float} (h : (a == b) = true) : Same (number a) (number b)
  | literal (text : String) : Same (literal text) (literal text)
  | boolean (b : Bool) : Same (boolean b) (boolean b)
  | assignment (name : String) {v w : Value} (h : Same v w) :
      Same (assignment name v) (assignment name w)
  | empty : Same empty empty

theorem same_of_equal : ∀ {v w : Value}, v.equal w = true → Same v w
  | .number a, w, h => by
    cases w with
    | number b => exact .number h
    | _ => cases h
  | .literal a, w, h => by
    cases w with
    | literal b =>
      obtain rfl : a = b := by simpa [equal] using h
      exact .literal a
    | _ => cases h
  | .boolean a, w, h => by
    cases w with
    | boolean b =>
      obtain rfl : a = b := by simpa [equal] using h
      exact .boolean a
    | _ => cases h
  | .assignment x v, w, h => by
    cases w with
    | assignment y w =>
      obtain ⟨rfl, hvw⟩ : x = y ∧ v.equal w = true := by simpa [equal] using h
      exact .assignment x (same_of_equal hvw)
    | _ => cases h
  | .empty, w, h => by
    cases w with
    | empty => exact .empty
    | _ => cases h
  | .absent, w, h => by cases w <;> cases h

/-- The rules say what equality decides. -/
theorem equal_iff_same : v.equal w = true ↔ Same v w := by
  refine ⟨same_of_equal, fun h => ?_⟩
  induction h with
  | number h => exact h
  | literal | boolean => simp [equal]
  | assignment name _ ih => simp [equal, ih]
  | empty => rfl

theorem Same.symm (h : Same v w) : Same w v := by
  induction h with
  | number h => exact .number (Number.beq_symm h)
  | literal text => exact .literal text
  | boolean b => exact .boolean b
  | assignment name _ ih => exact .assignment name ih
  | empty => exact .empty

theorem Same.trans (h : Same u v) (h' : Same v w) : Same u w := by
  induction h generalizing w with
  | number h =>
    cases h' with
    | number h' => exact .number (Number.beq_trans h h')
  | literal | boolean | empty => exact h'
  | assignment name _ ih =>
    cases h' with
    | assignment _ h' => exact .assignment name (ih h')

theorem Same.kind?_eq (h : Same v w) : v.kind? = w.kind? := by
  cases h <;> rfl

theorem equal_symm (v w : Value) : v.equal w = w.equal v := by
  rw [Bool.eq_iff_iff, equal_iff_same, equal_iff_same]
  exact ⟨Same.symm, Same.symm⟩

/-- A value and all that the assignments in it have assigned. -/
def parts : Value → List Value
  | assignment x v => assignment x v :: v.parts
  | v => [v]

/-- The part is a value, and a number only if it is one. -/
def IsProper (v : Value) : Prop := v ≠ absent ∧ ∀ f, v = number f → f.isNaN = false

/-- The values that equal themselves are those that hold neither what is no number nor no value. -/
theorem equal_self_iff (v : Value) : v.equal v = true ↔ ∀ w ∈ v.parts, w.IsProper := by
  induction v with
  | number f => simp [equal, parts, IsProper]
  | literal | boolean | empty => simp [equal, parts, IsProper]
  | assignment x v ih => simp [equal, parts, IsProper, ih]
  | absent => simp [equal, parts, IsProper]

end Value

namespace Evaluation

variable {n left right : Node} {s u : State} {v : Value}

/-- The evaluation of a node from the state has no effect on it. -/
def Leaves (n : Node) (s : State) : Prop := ∀ r u, Ends n s r u → u = s

/-- An evaluation that ends where it started has no effect. -/
theorem leaves_of_ends {r : Except EvalError Value} (h : Ends n s r s) : Leaves n s :=
  fun _ _ h' => (h'.unique h).2

/-- An equality test without effects is equal to the one with the sides swapped. -/
theorem ends_condition_of_swap (hl : Leaves left s) (hr : Leaves right s)
    (h : Ends (.condition left right) s (.ok v) u) : Ends (.condition right left) s (.ok v) u := by
  rcases ends_condition_iff.mp h with ⟨e, -, he⟩ | ⟨a, t, hleft, ⟨e, -, he⟩ | ⟨b, hright, he⟩⟩
  · cases he
  · cases he
  · obtain rfl := hl _ _ hleft
    obtain rfl := hr _ _ hright
    rw [Value.equal_symm] at he
    exact ends_condition_iff.mpr (.inr ⟨b, _, hright, .inr ⟨a, hleft, he⟩⟩)

/-- An equality test fails if one of its sides does. -/
theorem exists_condition_error_iff {x y : Except EvalError Value} (hl : Ends left s x s)
    (hr : Ends right s y s) : (∃ e, Ends (.condition left right) s (.error e) s) ↔
      (∃ e, x = .error e) ∨ ∃ e, y = .error e := by
  constructor
  · rintro ⟨e, h⟩
    rcases ends_condition_iff.mp h with ⟨e', hleft, -⟩ | ⟨a, t, hleft, ⟨e', hright, -⟩ | ⟨b, -, he⟩⟩
    · exact .inl ⟨e', (hl.unique hleft).1⟩
    · obtain ⟨-, rfl⟩ := hl.unique hleft
      exact .inr ⟨e', (hr.unique hright).1⟩
    · cases he
  · intro h
    cases x with
    | error e => exact ⟨e, ends_condition_iff.mpr (.inl ⟨e, hl, rfl⟩)⟩
    | ok a =>
      obtain ⟨e, rfl⟩ : ∃ e, y = .error e := by simpa using h
      exact ⟨e, ends_condition_iff.mpr (.inr ⟨a, s, hl, .inl ⟨e, hr, rfl⟩⟩)⟩

end Evaluation

/--
Equality is symmetric and transitive, it tells values of different kinds apart, and the values that
equal themselves are those that hold neither what is no number nor what is no value. Numbers are
compared as IEEE 754 has it. So an equality test whose sides have no effects gives the same answer
with its sides swapped, and if both sides come to an end, it fails in both orders or in none.
-/
theorem Value.equal_partial_equivalence :
    (∀ v w : Value, v.equal w = w.equal v) ∧
    (∀ u v w : Value, u.equal v = true → v.equal w = true → u.equal w = true) ∧
    (∀ v w : Value, v.kind? ≠ w.kind? → v.equal w = false) ∧
    (∀ v : Value, v.equal v = true ↔ ∀ w ∈ v.parts, w.IsProper) ∧
    (∀ a b : Float, (number a).equal (number b) = true ↔
      a.isNaN = false ∧ b.isNaN = false ∧ (a = b ∨ Number.IsZero a ∧ Number.IsZero b)) ∧
    ∀ (left right : Node) (s : Evaluation.State),
      Evaluation.Leaves left s → Evaluation.Leaves right s →
      (∀ v u, Evaluation.Ends (.condition left right) s (.ok v) u ↔
        Evaluation.Ends (.condition right left) s (.ok v) u) ∧
      ∀ x y, Evaluation.Ends left s x s → Evaluation.Ends right s y s →
        ((∃ e, Evaluation.Ends (.condition left right) s (.error e) s) ↔
          ∃ e, Evaluation.Ends (.condition right left) s (.error e) s) := by
  refine ⟨equal_symm, fun u v w huv hvw => ?_, fun v w h => ?_, equal_self_iff,
    fun _ _ => Number.beq_iff, fun left right s hl hr => ⟨fun v u => ?_, fun x y hx hy => ?_⟩⟩
  · exact equal_iff_same.mpr ((equal_iff_same.mp huv).trans (equal_iff_same.mp hvw))
  · rw [Bool.eq_false_iff]
    exact fun he => h (equal_iff_same.mp he).kind?_eq
  · exact ⟨Evaluation.ends_condition_of_swap hl hr, Evaluation.ends_condition_of_swap hr hl⟩
  · rw [Evaluation.exists_condition_error_iff hx hy, Evaluation.exists_condition_error_iff hy hx]
    exact or_comm

/-- The two zeros are equal in both orders, and an assignment of what is no number is not. -/
theorem Value.equal_partial_equivalence_zeros :
    let s : Evaluation.State := ⟨⟨[("z", .number 0)]⟩, []⟩
    let zero : Node := .identifier "z"
    let minus : Node := .negative (.identifier "z")
    Evaluation.Ends (.condition minus zero) s (.ok (.boolean true)) s ∧
      (assignment "x" (number (0 / 0))).equal (assignment "x" (number (0 / 0))) = false := by
  intro s zero minus
  obtain ⟨-, -, -, hself, hnumber, hswap⟩ := equal_partial_equivalence
  have hzero : Evaluation.Ends zero s (.ok (.number 0)) s := ⟨0, rfl⟩
  have hminus : Evaluation.Ends minus s (.ok (.number (-0))) s := ⟨0, rfl⟩
  have hequal : (number 0).equal (number (-0)) = true :=
    (hnumber 0 (-0)).mpr ⟨by decide +kernel, by decide +kernel, .inr ⟨.inl rfl, .inr rfl⟩⟩
  have htest : Evaluation.Ends (.condition zero minus) s (.ok (.boolean true)) s :=
    Evaluation.ends_condition_iff.mpr (.inr ⟨_, s, hzero, .inr ⟨_, hminus, by rw [hequal]⟩⟩)
  have hleaves := hswap zero minus s (Evaluation.leaves_of_ends hzero)
    (Evaluation.leaves_of_ends hminus)
  refine ⟨(hleaves.1 _ _).mp htest, ?_⟩
  rw [Bool.eq_false_iff]
  intro he
  have hproper : IsProper (number (0 / 0)) := (hself _).mp he _ (by simp [parts])
  have hnan : (0 / 0 : Float).isNaN = true := by decide +kernel
  exact Bool.false_ne_true ((hproper.2 _ rfl).symm.trans hnan)

end Scriptlet
