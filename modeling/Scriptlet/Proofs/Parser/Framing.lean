import Scriptlet.Proofs.Parser.Reading
import Scriptlet.Proofs.Session.Chunks

/-!
# A statement on any stack

While a statement is read, nothing below the place where it began is looked at. So a text with just one
statement is read as that statement wherever an expression may begin, whatever is open there. The text
must not begin a second statement before it ends, which is seen from the number of statements begun:
it never goes down.

## Main definitions

* `Parser.State.over`: a state on top of other open constructs
* `Parser.State.Inside`: a state in the middle of the first statement
* `Parser.State.statements`: the number of statements that have begun

## Main statements

* `Parser.feed_over`: a token does the same on any stack
* `Parser.reads_of_parse`: a text with one statement is read as that statement
-/

namespace Scriptlet.Parser

/-- The same expectation on top of other open constructs, and after other statements. -/
def State.over (frames : List Frame) (done : List Node) (s : State) : State :=
  ⟨s.control, s.frames ++ frames, done⟩

/-- The precedence that the operators of the current expression have to exceed. -/
def Control.floor : Control → Precedence
  | .top => .default
  | .block floor .. | .start floor | .negated floor | .named floor _ | .atom floor _
  | .complete floor _ | .loop floor | .opening floor _ | .branches floor .. => floor

/-- The same for the outermost expression. -/
def bottom (floor : Precedence) : List Frame → Precedence
  | [] => floor
  | frame :: frames => bottom frame.floor frames

/-- The first statement has begun and is not complete. -/
structure State.Inside (s : State) : Prop where
  control : s.control ≠ .top
  done : s.done = []
  bottom : bottom s.control.floor s.frames = .default

/-- The number of statements that have begun. -/
def State.statements (s : State) : Nat :=
  match s.control with
  | .top => s.done.length
  | _ => s.done.length + 1

variable {t : Token} {s u v : State} {frames : List Frame} {done : List Node} {node : Node}
  {ts : List Token}

/-! ## Statements that have begun -/

theorem Move.statements_le (h : Move t s u) : s.statements ≤ u.statements := by
  cases h <;> simp [State.statements]

theorem Moves.statements_le (h : Moves t s u) : s.statements ≤ u.statements :=
  h.induction (P := fun u => s.statements ≤ u.statements) (fun hm hs => hs.trans hm.statements_le) le_rfl

theorem Shift.statements_le (h : Shift t s u) : s.statements ≤ u.statements := by
  cases h <;> simp [State.statements]

theorem statements_le_of_feedAll (h : feedAll 0 s ts = .ok u) : s.statements ≤ u.statements := by
  refine feedAll_preserves (P := fun u => s.statements ≤ u.statements) (fun hf hs => ?_) h le_rfl
  obtain ⟨v, hm, hshift⟩ := exists_shift_of_feed hf
  exact hs.trans ((Moves.statements_le hm).trans hshift.statements_le)

/-- After a complete statement a token either ends the text or begins one more. -/
theorem Moves.eq_or_two_le (h : Moves t ⟨.top, [], [node]⟩ v) :
    v = ⟨.top, [], [node]⟩ ∨ 2 ≤ v.statements := by
  obtain rfl | ⟨w, hm, hrest⟩ := Relation.ReflTransGen.cases_head h
  · exact .inl rfl
  · cases hm with
    | fresh => exact .inr (Moves.statements_le hrest)

/-! ## One token on any stack -/

/-- A move goes on within the statement, or completes it. -/
theorem Move.over (h : Move t s u) (hs : s.Inside) :
    u.Inside ∧ Move t (s.over frames done) (u.over frames done) ∨
      ∃ node, s = ⟨.complete .default node, [], []⟩ ∧ u = ⟨.top, [], [node]⟩ := by
  obtain ⟨hc, hd, hb⟩ := hs
  cases h with
  | last =>
    cases hd
    cases hb
    exact .inr ⟨_, rfl, rfl⟩
  | fresh => exact absurd rfl hc
  | _ =>
    refine .inl ⟨⟨nofun, hd, hb⟩, ?_⟩
    constructor <;> assumption

theorem Moves.over (h : Moves t s v) (hs : s.Inside) (frames : List Frame) (done : List Node) :
    v.Inside ∧ Moves t (s.over frames done) (v.over frames done) ∨
      ∃ node, Moves t (s.over frames done) ⟨.complete .default node, frames, done⟩ ∧
        Moves t ⟨.top, [], [node]⟩ v := by
  induction h using Relation.ReflTransGen.head_induction_on with
  | refl => exact .inl ⟨hs, .refl⟩
  | head hm hrest ih =>
    obtain ⟨hu, hmove⟩ | ⟨node, rfl, rfl⟩ := hm.over hs
    · obtain ⟨hv, hmoves⟩ | ⟨node, hmoves, htop⟩ := ih hu
      · exact .inl ⟨hv, .head hmove hmoves⟩
      · exact .inr ⟨node, .head hmove hmoves, htop⟩
    · exact .inr ⟨node, .refl, hrest⟩

theorem Shift.over (h : Shift t s u) (hs : s.Inside) (frames : List Frame) (done : List Node) :
    u.Inside ∧ Shift t (s.over frames done) (u.over frames done) := by
  obtain ⟨hc, hd, hb⟩ := hs
  cases h with
  | finish => exact absurd rfl hc
  | _ =>
    refine ⟨⟨nofun, hd, hb⟩, ?_⟩
    constructor <;> assumption

/-- As long as no second statement begins, a token does the same on any stack. -/
theorem feed_over (h : feed 0 s t = .ok u) (hs : s.Inside) (ht : t.kind ≠ .endOfInput)
    (hu : u.statements ≤ 1) (frames : List Frame) (done : List Node) :
    u.Inside ∧ feed 0 (s.over frames done) t = .ok (u.over frames done) := by
  obtain ⟨v, hm, hshift⟩ := exists_shift_of_feed h
  obtain ⟨hv, hmoves⟩ | ⟨node, -, htop⟩ := Moves.over hm hs frames done
  · obtain ⟨hinside, hover⟩ := hshift.over hv frames done
    exact ⟨hinside, by rw [Moves.feed_eq hmoves, hover.feed_eq]⟩
  · obtain rfl | htwo := Moves.eq_or_two_le htop
    · cases hshift with
      | finish hk => exact absurd hk ht
    · have hle := hshift.statements_le
      omega

theorem feedAll_over (h : feedAll 0 s ts = .ok u) (hs : s.Inside)
    (ht : ∀ t ∈ ts, t.kind ≠ .endOfInput) (hu : u.statements ≤ 1) (frames : List Frame)
    (done : List Node) :
    u.Inside ∧ feedAll 0 (s.over frames done) ts = .ok (u.over frames done) := by
  induction ts generalizing s with
  | nil =>
    cases h
    exact ⟨hs, rfl⟩
  | cons t ts ih =>
    obtain ⟨v, hf, hrest⟩ := exists_feed_of_feedAll_cons h
    have hle := (statements_le_of_feedAll hrest).trans hu
    obtain ⟨hv, hover⟩ := feed_over hf hs (ht t List.mem_cons_self) hle frames done
    rw [feedAll_cons_of_ok hover]
    exact ih hrest hv fun t' ht' => ht t' (List.mem_cons_of_mem _ ht')

/-! ## Texts with one statement -/

theorem Ends.begins (h : Ends t) (hp : ¬ Precedence.default < t.precedence) : Begins t where
  notAssign := h.notAssign
  notEquals := h.notEquals
  notElse := by simp [Token.isKeyword, h.notLiteral]
  notElif := by simp [Token.isKeyword, h.notLiteral]
  precedence := by
    cases hprec : t.precedence <;> simp_all [Precedence.lt_iff_rank_lt, Precedence.rank]

/-- A text with one statement is read as that statement wherever an expression may begin. -/
theorem reads_of_parse {text : String} (h : parse 0 text = .ok [node]) :
    Tokens.plain text.toList = Tokens.ofList (Tokens.plain text.toList).toList ∧
      Reads .default (Tokens.plain text.toList).toList .default node := by
  obtain ⟨ts, u, line, hts, hu, hm⟩ := exists_moves_top_of_parse h
  have hkinds : ∀ t ∈ ts, t.kind ≠ .endOfInput := by
    intro t ht
    have hmem : t ∈ (Tokens.plain text.toList).toList := by rwa [hts, Tokens.toList_ofList]
    exact (Tokens.scanned_of_mem_plain hmem).kind_ne_endOfInput
  rw [hts, Tokens.toList_ofList]
  refine ⟨rfl, ?_⟩
  cases ts with
  | nil =>
    cases hu
    obtain heq | ⟨w, hmove, -⟩ := Relation.ReflTransGen.cases_head hm
    · simp [State.initial, State.onto] at heq
    · cases hmove with
      | fresh he => exact absurd rfl he
  | cons t ts =>
    have hfresh : Moves t .initial ⟨.start .default, [], []⟩ :=
      .single (.fresh (hkinds t List.mem_cons_self))
    rw [feedAll_of_moves hfresh] at hu
    intro frames done
    obtain ⟨hinside, hover⟩ := feedAll_over hu ⟨by simp, rfl, rfl⟩ hkinds (Moves.statements_le hm)
      frames done
    refine ⟨u.over frames done, hover, fun t' ht hp => ?_⟩
    obtain ⟨hend, -⟩ | ⟨node', hmoves, hrest⟩ :=
      Moves.over ((ht.begins hp).moves_top hm) hinside frames done
    · exact absurd rfl hend.control
    · obtain heq | htwo := Moves.eq_or_two_le hrest
      · cases heq
        exact hmoves
      · simp [State.statements, State.initial] at htwo

end Scriptlet.Parser
