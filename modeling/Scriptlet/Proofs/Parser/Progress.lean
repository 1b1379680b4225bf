import Scriptlet.Node.Descent
import Scriptlet.Proofs.Stopping

/-!
# Progress

Reading by recursive descent ends on every text. The reason is progress: a procedure that returns a
value has taken a token from the text, one that is neither whitespace nor the end of the text. So a
loop that runs such a procedure, and a procedure that calls itself after one, has less to read every
time, and it does not matter that the end of the text can be read again and again.

## Main definitions

* `Descent.Reader.size`: what is left to read
* `Descent.Advances`, `Descent.Consumes`: one step of a reader
* `Descent.Returns`: a procedure returns, and a value comes with a reader that has been read on
* `Descent.Progresses`: a procedure returns, and with a value only after it has consumed a token

## Main statements

* `Descent.Progress.size_lt`: progress leaves less to read
* `Descent.Within.succ`: expressions make progress if those with less to read do
* `Descent.expression_progresses`: every expression makes progress, from every reader
-/

namespace Scriptlet.Descent

variable {α β : Type} {bound n : Nat} {r u v r' : Reader} {x : Procedure α} {f : α → Procedure β}

/-! ## Running procedures -/

theorem outcome_bind (x : Procedure α) (f : α → Procedure β) (r : Reader) :
    (x >>= f).outcome r = (x.outcome r).bind fun
      | .error e => some (.error e)
      | .ok (a, u) => (f a).outcome u := by
  simp only [Procedure.outcome, StateT.run_bind, ExceptT.run_bind]
  change Option.bind _ _ = _
  congr 1
  funext out
  rcases out with e | ⟨a, u⟩ <;> rfl

theorem outcome_pure (a : α) (r : Reader) : (pure a : Procedure α).outcome r = some (.ok (a, r)) :=
  rfl

theorem outcome_get_bind (f : Reader → Procedure β) (r : Reader) :
    (get >>= f).outcome r = (f r).outcome r :=
  rfl

theorem outcome_refuse (problem : ParseProblem) (r : Reader) :
    (refuse problem : Procedure α).outcome r = some (.error (.atToken r.current problem)) :=
  rfl

theorem outcome_advance (r : Reader) : advance.outcome r =
    match r.lexer.next with
    | (none, s) => some (.error (scanError s r.current.line))
    | (some t, s) =>
      if t.kind = .whitespace then advance.outcome { r with lexer := s }
      else some (.ok ((), ⟨t, s⟩)) := by
  rw [advance, outcome_get_bind, seek]
  obtain ⟨_ | t, s⟩ := r.lexer.next
  · rfl
  · dsimp only
    split <;> rfl

/-! ## The steps of a reader -/

/-- What is left to read: the characters behind the lookahead, and one for the lookahead itself. -/
def Reader.size (r : Reader) : Nat :=
  r.lexer.rest.length + if r.current.kind = .endOfInput then 0 else 1

/-- The reader takes one more token. -/
def Advances (r r' : Reader) : Prop := advance.outcome r = some (.ok ((), r'))

/-- A token is passed that counts: neither whitespace nor the end of the text. -/
structure Consumes (r r' : Reader) : Prop where
  advances : Advances r r'
  ne_endOfInput : r.current.kind ≠ .endOfInput
  ne_whitespace : r.current.kind ≠ .whitespace

/-- Any number of tokens is taken. -/
abbrev Reaches : Reader → Reader → Prop := Relation.ReflTransGen Advances

/-- Some tokens are taken, and at least one of them counts. -/
def Progress (r r' : Reader) : Prop := ∃ u v, Reaches r u ∧ Consumes u v ∧ Reaches v r'

theorem Reader.length_lt_size (h : r.current.kind ≠ .endOfInput) : r.lexer.rest.length < r.size := by
  simp [size, h]

theorem Reader.length_le_size (r : Reader) : r.lexer.rest.length ≤ r.size :=
  Nat.le_add_right _ _

/-- The induction is on the text: each whitespace that is skipped is a part of it. -/
theorem exists_outcome_advance (r : Reader) : ∃ out, advance.outcome r = some out ∧
    ∀ r', out = .ok ((), r') → r'.size ≤ r.lexer.rest.length := by
  obtain ⟨current, lexer⟩ := r
  induction h : lexer.rest.length using Nat.strong_induction_on generalizing lexer with
  | _ n ih =>
    subst h
    rw [outcome_advance]
    rcases hn : lexer.next with ⟨_ | t, s⟩
    · exact ⟨_, rfl, fun r' h => by cases h⟩
    · have hle := Lexer.length_le_of_next hn
      dsimp only
      split
      · rename_i hw
        obtain ⟨out, hout, hsize⟩ := ih s.rest.length (by simp [hw] at hle; omega) s rfl
        exact ⟨out, hout, fun r' h => (hsize r' h).trans (by omega)⟩
      · refine ⟨_, rfl, fun r' h => ?_⟩
        obtain rfl : ⟨t, s⟩ = r' := by simpa using h
        exact hle

theorem Advances.size_le (h : Advances r r') : r'.size ≤ r.lexer.rest.length := by
  obtain ⟨out, hout, hsize⟩ := exists_outcome_advance r
  exact hsize r' (Option.some.inj (hout.symm.trans h))

theorem Reaches.size_le (h : Reaches r r') : r'.size ≤ r.size := by
  induction h with
  | refl => exact le_rfl
  | tail _ hstep ih => exact hstep.size_le.trans ((Reader.length_le_size _).trans ih)

theorem Consumes.progress (h : Consumes r r') : Progress r r' := ⟨r, r', .refl, h, .refl⟩

/-- Progress leaves less to read. -/
theorem Progress.size_lt (h : Progress r r') : r'.size < r.size := by
  obtain ⟨u, v, hu, hv, hr⟩ := h
  calc r'.size ≤ v.size := hr.size_le
    _ ≤ u.lexer.rest.length := hv.advances.size_le
    _ < u.size := Reader.length_lt_size hv.ne_endOfInput
    _ ≤ r.size := hu.size_le

theorem Progress.reaches (h : Progress r r') : Reaches r r' := by
  obtain ⟨u, v, hu, hv, hr⟩ := h
  exact hu.trans (.head hv.advances hr)

theorem Progress.trans_reaches (h : Progress r u) (hu : Reaches u r') : Progress r r' := by
  obtain ⟨v, w, hv, hw, hr⟩ := h
  exact ⟨v, w, hv, hw, hr.trans hu⟩

theorem Reaches.trans_progress (h : Reaches r u) (hu : Progress u r') : Progress r r' := by
  obtain ⟨v, w, hv, hw, hr⟩ := hu
  exact ⟨v, w, h.trans hv, hw, hr⟩

/-! ## Contracts -/

/-- The procedure returns, and if it returns a value, it leaves the reader as described. -/
def Ensures (x : Procedure α) (r : Reader) (post : Reader → Prop) : Prop :=
  ∃ out, x.outcome r = some out ∧ ∀ a r', out = .ok (a, r') → post r'

/-- The procedure returns. -/
abbrev Returns (x : Procedure α) (r : Reader) : Prop := Ensures x r (Reaches r)

/-- The procedure returns, and with a value only after it has consumed a token. -/
abbrev Progresses (x : Procedure α) (r : Reader) : Prop := Ensures x r (Progress r)

section Rules

variable {post post' : Reader → Prop}

theorem Ensures.mono (h : Ensures x r post) (hp : ∀ r', post r' → post' r') : Ensures x r post' := by
  obtain ⟨out, hout, hpost⟩ := h
  exact ⟨out, hout, fun a r' ha => hp r' (hpost a r' ha)⟩

theorem Ensures.of_outcome (h : Ensures x r post) {a : α} (hx : x.outcome r = some (.ok (a, u))) :
    post u := by
  obtain ⟨out, hout, hpost⟩ := h
  exact hpost a u (Option.some.inj (hout.symm.trans hx))

theorem ensures_pure (a : α) (h : post r) : Ensures (pure a) r post := by
  refine ⟨_, outcome_pure a r, fun b r' hb => ?_⟩
  obtain ⟨-, rfl⟩ : a = b ∧ r = r' := by simpa using hb
  exact h

theorem ensures_refuse (problem : ParseProblem) : Ensures (refuse problem : Procedure α) r post :=
  ⟨_, outcome_refuse problem r, fun a r' ha => by cases ha⟩

theorem ensures_lookahead_bind {f : Token → Procedure β} (h : Ensures (f r.current) r post) :
    Ensures (lookahead >>= f) r post :=
  h

/-- One procedure after the other. -/
theorem Ensures.bind (hx : Ensures x r post) (hf : ∀ a u, post u → Ensures (f a) u post') :
    Ensures (x >>= f) r post' := by
  obtain ⟨out, hout, hpost⟩ := hx
  rw [Ensures, outcome_bind, hout]
  rcases out with e | ⟨a, u⟩
  · exact ⟨_, rfl, fun b r' h => by cases h⟩
  · exact hf a u (hpost a u rfl)

theorem ensures_advance (r : Reader) : Ensures advance r (Advances r) := by
  obtain ⟨out, hout, -⟩ := exists_outcome_advance r
  refine ⟨out, hout, fun _ r' h => ?_⟩
  subst h
  exact hout

/-- What is expected is a token that counts. -/
theorem ensures_expect {kind : Token.Kind} (he : kind ≠ .endOfInput) (hw : kind ≠ .whitespace)
    (problem : ParseProblem) (r : Reader) : Ensures (expect kind problem) r (Consumes r) := by
  refine ensures_lookahead_bind ?_
  split
  · rename_i hk
    exact (ensures_advance r).mono fun u hu => ⟨hu, hk ▸ he, hk ▸ hw⟩
  · exact ensures_refuse problem

end Rules

theorem Progresses.returns (h : Progresses x r) : Returns x r := h.mono fun _ => Progress.reaches

theorem Returns.bind (hx : Returns x r) (hf : ∀ a u, Reaches r u → Returns (f a) u) :
    Returns (x >>= f) r :=
  Ensures.bind hx fun a u hu => (hf a u hu).mono fun _ => hu.trans

theorem Returns.bind_progresses (hx : Returns x r) (hf : ∀ a u, Reaches r u → Progresses (f a) u) :
    Progresses (x >>= f) r :=
  Ensures.bind hx fun a u hu => (hf a u hu).mono fun _ => hu.trans_progress

theorem Progresses.bind (hx : Progresses x r) (hf : ∀ a u, Progress r u → Returns (f a) u) :
    Progresses (x >>= f) r :=
  Ensures.bind hx fun a u hu => (hf a u hu).mono fun _ => hu.trans_reaches

/-- A token that counts is progress, whatever follows. -/
theorem progresses_advance_bind {f : Unit → Procedure β} (he : r.current.kind ≠ .endOfInput)
    (hw : r.current.kind ≠ .whitespace) (hf : ∀ u, Consumes r u → Returns (f ()) u) :
    Progresses (advance >>= f) r :=
  (ensures_advance r).bind fun _ u hu =>
    (hf u ⟨hu, he, hw⟩).mono fun _ => (Consumes.progress ⟨hu, he, hw⟩).trans_reaches

theorem progresses_of_advances {f : Unit → Procedure β}
    (hf : ∀ u, Advances r u → Progresses (f ()) u) : Progresses (advance >>= f) r :=
  (ensures_advance r).bind fun _ u hu => (hf u hu).mono fun _ => Reaches.trans_progress (.single hu)

/-! ## The procedures -/

/-- Expressions make progress if less than `n` is left to read. -/
def Within (bound n : Nat) : Prop :=
  ∀ r : Reader, r.size < n → ∀ depth floor, Progresses (expression bound (depth, floor)) r

section Procedures

variable {depth : Nat} {test left : Node} {owner : Owner} {body : List Node}

/-- The loop of a block: each statement leaves less to read. -/
theorem Within.statements_progresses (h : Within bound n) (hr : r.size < n) :
    Progresses (statements bound (depth, test, owner, body)) r := by
  induction hs : r.size using Nat.strong_induction_on generalizing r body with
  | _ m ih =>
    subst hs
    rw [statements]
    refine ensures_lookahead_bind ?_
    split
    · rename_i hk
      exact progresses_advance_bind (by simp [hk]) (by simp [hk]) fun u _ => ensures_pure body .refl
    · exact ensures_refuse _
    · exact (h r hr depth .default).bind fun a u hu =>
        (ih u.size hu.size_lt (hu.size_lt.trans hr) rfl).returns

theorem Within.block_progresses (h : Within bound n) (hr : r.lexer.rest.length < n) :
    Progresses (block bound (depth, test, owner)) r := by
  rw [block]
  refine (ensures_expect (by decide) (by decide) _ r).bind fun _ u hu => ?_
  have hu' : u.size < n := hu.advances.size_le.trans_lt hr
  exact (h.statements_progresses hu').returns.mono fun _ => hu.progress.trans_reaches

theorem links_returns (h : r.current.kind ≠ .endOfInput → Progresses (link bound depth) r) :
    Returns (links bound depth) r := by
  rw [links]
  refine ensures_lookahead_bind ?_
  split
  · rename_i hk
    refine (h fun he => ?_).returns
    simp [Token.isKeyword, he] at hk
  · exact ensures_pure [] .refl

/-- The recursion through a chain of branches: each branch leaves less to read. -/
theorem Within.link_progresses (h : Within bound n) (hr : r.lexer.rest.length < n) :
    Progresses (link bound depth) r := by
  induction hs : r.lexer.rest.length using Nat.strong_induction_on generalizing r with
  | _ m ih =>
    subst hs
    rw [link]
    refine ensures_lookahead_bind (progresses_of_advances fun u hu => ?_)
    have hlt : u.size < n := hu.size_le.trans_lt hr
    split
    · refine (h u hlt depth .default).bind fun test v hv => ?_
      have hv' : v.lexer.rest.length < n :=
        (v.length_le_size.trans_lt hv.size_lt).trans hlt
      refine (h.block_progresses hv').returns.bind fun body w hw => ?_
      have hw' : w.size < r.lexer.rest.length :=
        (hw.size_le.trans_lt hv.size_lt).trans_le hu.size_le
      refine (links_returns fun he => ?_).bind fun _ _ _ => ensures_pure _ .refl
      have hlink : w.lexer.rest.length < r.lexer.rest.length := (Reader.length_lt_size he).trans hw'
      exact ih _ hlink (hlink.trans hr) rfl
    · refine (h.block_progresses (u.length_le_size.trans_lt hlt)).bind fun body v _ => ?_
      refine ensures_lookahead_bind ?_
      split
      · exact ensures_refuse _
      · exact ensures_pure _ .refl

theorem Within.conditional_progresses (h : Within bound n) (hr : r.lexer.rest.length < n) :
    Progresses (conditional bound depth) r := by
  rw [conditional]
  refine progresses_of_advances fun u hu => ?_
  have hlt : u.size < n := hu.size_le.trans_lt hr
  refine (h u hlt depth .default).bind fun test v hv => ?_
  have hv' : v.lexer.rest.length < n := (v.length_le_size.trans_lt hv.size_lt).trans hlt
  refine (h.block_progresses hv').returns.bind fun body w hw => ?_
  have hw' : w.lexer.rest.length < n :=
    (w.length_le_size.trans_lt (hw.size_le.trans_lt hv.size_lt)).trans hlt
  exact (links_returns fun _ => h.link_progresses hw').bind fun _ _ _ => ensures_pure _ .refl

theorem Within.loopTest_returns (h : Within bound n) (hr : r.size < n) :
    Returns (loopTest bound depth) r := by
  rw [loopTest]
  refine ensures_lookahead_bind ?_
  split
  · exact ensures_pure _ .refl
  · exact (h r hr depth .default).returns

theorem Within.loop_progresses (h : Within bound n) (hr : r.lexer.rest.length < n) :
    Progresses (loop bound depth) r := by
  rw [loop]
  refine progresses_of_advances fun u hu => ?_
  have hlt : u.size < n := hu.size_le.trans_lt hr
  refine (h.loopTest_returns hlt).bind_progresses fun test v hv => ?_
  have hv' : v.lexer.rest.length < n := (v.length_le_size.trans hv.size_le).trans_lt hlt
  exact (h.block_progresses hv').bind fun _ _ _ => ensures_pure _ .refl

theorem Within.comparison_returns (h : Within bound n) (hr : r.size < n) :
    Returns (comparison bound (depth, left)) r := by
  rw [comparison]
  refine ensures_lookahead_bind ?_
  split
  · rename_i hk
    refine (progresses_advance_bind (by simp [hk]) (by simp [hk]) fun u hu => ?_).returns
    have hu' : u.size < n := hu.progress.size_lt.trans hr
    exact (h u hu' depth .default).returns.bind fun _ _ _ => ensures_pure _ .refl
  · exact ensures_pure left .refl

theorem Within.named_returns (h : Within bound n) (hr : r.size < n) (name : String) :
    Returns (named bound (depth, name)) r := by
  rw [named]
  refine ensures_lookahead_bind ?_
  split
  · rename_i hk
    refine (progresses_advance_bind (by simp [hk]) (by simp [hk]) fun u hu => ?_).returns
    have hu' : u.size < n := hu.progress.size_lt.trans hr
    exact (h u hu' depth .default).returns.bind fun _ _ _ => ensures_pure _ .refl
  · exact h.comparison_returns hr

theorem Within.negated_progresses (h : Within bound n) (hr : r.size < n) :
    Progresses (negated bound depth) r := by
  rw [negated]
  refine ensures_lookahead_bind ?_
  split
  · rename_i hk
    exact progresses_advance_bind (by simp [hk]) (by simp [hk]) fun u hu => ensures_pure _ .refl
  · rename_i hk
    exact progresses_advance_bind (by simp [hk]) (by simp [hk]) fun u hu => ensures_pure _ .refl
  · exact h r hr depth .negativeValue

theorem Within.primary_progresses (h : Within bound n) (hr : r.size ≤ n) :
    Progresses (primary bound depth) r := by
  have hconsumes {u : Reader} (hu : Consumes r u) : u.size < n := hu.progress.size_lt.trans_le hr
  rw [primary]
  refine ensures_lookahead_bind ?_
  split
  · rename_i hk
    refine progresses_advance_bind (by simp [hk]) (by simp [hk]) fun u hu => ?_
    refine (h.negated_progresses (hconsumes hu)).returns.bind fun operand v hv => ?_
    exact h.comparison_returns (hv.size_le.trans_lt (hconsumes hu))
  · rename_i hk
    exact progresses_advance_bind (by simp [hk]) (by simp [hk]) fun u hu =>
      h.comparison_returns (hconsumes hu)
  · rename_i hk
    refine progresses_advance_bind (by simp [hk]) (by simp [hk]) fun u hu => ?_
    refine (h u (hconsumes hu) depth .default).returns.bind fun inner v _ => ?_
    refine ((ensures_expect (by decide) (by decide) _ v).mono fun _ hw => hw.progress.reaches).bind ?_
    exact fun _ _ hw => ensures_pure inner hw
  · rename_i hk
    exact progresses_advance_bind (by simp [hk]) (by simp [hk]) fun u hu =>
      h.named_returns (hconsumes hu) _
  · rename_i hk
    have hlt : r.lexer.rest.length < n := (Reader.length_lt_size (by simp [hk])).trans_le hr
    split
    · exact h.conditional_progresses hlt
    · exact (h.link_progresses hlt).bind fun _ _ _ => ensures_pure _ .refl
    · exact (h.link_progresses hlt).bind fun _ _ _ => ensures_pure _ .refl
    · exact h.loop_progresses hlt
    · exact progresses_advance_bind (by simp [hk]) (by simp [hk]) fun u hu =>
        h.comparison_returns (hconsumes hu)
  · exact ensures_refuse _
  · exact ensures_refuse _

theorem Within.operation_progresses (h : Within bound n) (hr : r.size ≤ n) :
    Progresses (operation bound (depth, left)) r := by
  rw [operation]
  refine ensures_lookahead_bind ?_
  split
  · rename_i hk
    have he : r.current.kind ≠ .endOfInput := fun he => by simp [he, Token.Kind.isArithmetic] at hk
    have hw : r.current.kind ≠ .whitespace := fun he => by simp [he, Token.Kind.isArithmetic] at hk
    refine progresses_advance_bind he hw fun u hu => ?_
    have hu' : u.size < n := hu.progress.size_lt.trans_le hr
    exact (h u hu' depth _).returns.bind fun _ _ _ => ensures_pure _ .refl
  · exact ensures_refuse _

/-- The loop of an expression: each operator leaves less to read. -/
theorem Within.operators_returns (h : Within bound n) (hr : r.size < n) (floor : Precedence) :
    Returns (operators bound (depth, floor, left)) r := by
  induction hs : r.size using Nat.strong_induction_on generalizing r left with
  | _ m ih =>
    subst hs
    rw [operators]
    refine ensures_lookahead_bind ?_
    split
    · exact ((h.operation_progresses hr.le).bind fun a u hu =>
        ih u.size hu.size_lt (hu.size_lt.trans hr) rfl).returns
    · exact ensures_pure left .refl

/-- Expressions make progress if those with less to read do. -/
theorem Within.succ (h : Within bound n) : Within bound (n + 1) := by
  intro r hr depth floor
  have hle : r.size ≤ n := Nat.lt_succ_iff.mp hr
  rw [expression]
  split
  · exact ensures_refuse _
  · exact (h.primary_progresses hle).bind fun left u hu =>
      h.operators_returns (hu.size_lt.trans_le hle) floor

theorem within (bound n : Nat) : Within bound n := by
  induction n with
  | zero => exact fun r hr => absurd hr (Nat.not_lt_zero _)
  | succ n ih => exact ih.succ

theorem expression_progresses (bound depth : Nat) (floor : Precedence) (r : Reader) :
    Progresses (expression bound (depth, floor)) r :=
  within bound (r.size + 1) r (Nat.lt_succ_self _) depth floor

/-- The loop over a text: each statement leaves less to read. -/
theorem program_returns (bound : Nat) (done : List Node) (r : Reader) :
    Returns (program bound done) r := by
  induction hs : r.size using Nat.strong_induction_on generalizing r done with
  | _ m ih =>
    subst hs
    rw [program]
    refine ensures_lookahead_bind ?_
    split
    · exact ensures_pure done .refl
    · exact ((expression_progresses bound 0 .default r).bind fun a u hu =>
        ih u.size hu.size_lt _ u rfl).returns

theorem returns_advance (r : Reader) : Returns advance r :=
  (ensures_advance r).mono fun _ => Relation.ReflTransGen.single

theorem whole_returns (bound : Nat) (r : Reader) : Returns (whole bound) r :=
  (returns_advance r).bind fun _ u _ => program_returns bound [] u

end Procedures

end Scriptlet.Descent
