import Scriptlet.Proofs.Parser.Depth
import Scriptlet.Proofs.Parser.Progress

/-!
# Recursive descent and the stack

The procedures of recursive descent do what the parser with the stack of open constructs does: where
a procedure calls another one, the parser pushes a frame, and where a procedure returns a value, the
parser delivers it to the frame. So with the progress that the procedures make, both read every text
in the same way, and reading ends.

## Main definitions

* `Descent.resume`: what the parser with the stack makes of the rest of a text
* `Descent.Agrees`: a procedure leaves the parser with the stack in a known state, or both refuse

## Main statements

* `Descent.Agrees.bind`: agreement is shown one procedure after the other
* `Descent.Follows.succ`: expressions agree if those with less to read do
* `Descent.parse_eq`: recursive descent returns what `Parser.parse` gives
-/

namespace Scriptlet

namespace Parser

theorem Shift.settled {t : Token} {s u : State} (h : Shift t s u) : Settled t s := by
  cases h with
  | minus | number | leftParen | identifier | tested | elseWord | whileWord | literal => exact .start
  | negatedNumber hk => exact .negated (.inl hk)
  | negatedIdentifier hk => exact .negated (.inr hk)
  | assign hk => exact .named hk
  | equals hk => exact .atom hk
  | operator hp => exact .operator hp
  | rightParen hk =>
    have hp : t.precedence = .default := by simp [Token.precedence, hk, Token.Kind.precedence]
    exact .group (hp ▸ Precedence.not_lt_default _)
  | leftBrace => exact .opening
  | loopEnd hk | branchEnd hk => exact .block (.inl hk)
  | elifBranch hk => exact .branches (by simp [hk])
  | elseBranch hk => exact .branches (by simp [hk])
  | finish hk => exact .top hk

/-- The bound leaves room for one more expression inside of the open constructs. -/
def Room (bound : Nat) (frames : List Frame) : Prop := ¬ (0 < bound ∧ bound < frames.length + 1)

theorem Shift.feed_eq_of_room {bound : Nat} {t : Token} {s u : State} (h : Shift t s u)
    (hroom : ∀ floor, s.control = .start floor → Room bound s.frames) : feed bound s t = .ok u :=
  (h.settled.feed_eq_of_start hroom).trans h.feed_eq

end Parser

namespace Descent

open Scriptlet.Parser

variable {α β : Type} {bound n : Nat} {r u : Reader} {x : Procedure α} {f : α → Procedure β}
  {s s' : State} {after : α → State} {after' : β → State} {next next' : Token → Prop}
  {floor : Precedence} {frames : List Frame} {done : List Node}

/-! ## The parser with the stack on a reader -/

/-- What the parser with the stack makes of the rest: the lookahead, then the tokens behind it. -/
def resume (bound : Nat) (s : State) (r : Reader) : Except ParseError (List Node) :=
  match feed bound s r.current with
  | .error e => .error e
  | .ok u =>
    if r.current.kind = .endOfInput then .ok u.done else run bound u r.lexer.tokens.significant

theorem resume_of_moves (h : Moves r.current s s') : resume bound s r = resume bound s' r := by
  simp only [resume, Moves.feed_eq h]

theorem resume_of_feed (h : feed bound s r.current = .ok s') (he : r.current.kind ≠ .endOfInput) :
    resume bound s r = run bound s' r.lexer.tokens.significant := by
  simp only [resume, h, if_neg he]

theorem run_done (s : State) (line : Nat) (lexer : Lexer) :
    run bound s (.done line) = resume bound s ⟨.endOfInput line, lexer⟩ := by
  have hk : (Token.endOfInput line).kind = .endOfInput := rfl
  cases h : feed bound s (.endOfInput line) <;> simp [run, resume, hk, h]

theorem run_cons (s : State) {t : Token} (hk : t.kind ≠ .endOfInput) (lexer : Lexer) :
    run bound s (.cons t lexer.tokens.significant) = resume bound s ⟨t, lexer⟩ := by
  cases h : feed bound s t <;> simp [run, resume, hk, h]

/--
How a procedure came out that was run with the parser with the stack in the state `s`: the parser
refuses the text with the same error, or it goes on from the state `after`, with a lookahead as in
`next`.
-/
def Agreed (bound : Nat) (s : State) (r : Reader) (after : α → State) (next : Token → Prop) :
    Except ParseError (α × Reader) → Prop
  | .error e => resume bound s r = .error e
  | .ok (a, u) => u.lexer.Sound ∧ next u.current ∧ resume bound s r = resume bound (after a) u

/-- If the procedure returns, the parser with the stack agrees with it. -/
def Agrees (bound : Nat) (s : State) (x : Procedure α) (r : Reader) (after : α → State)
    (next : Token → Prop) : Prop :=
  r.lexer.Sound → ∀ out, x.outcome r = some out → Agreed bound s r after next out

/-- The parser with the stack is not shown the whitespace. The induction is on the text. -/
theorem agreed_advance (bound : Nat) (hs : r.lexer.Sound) {out : Except ParseError (Unit × Reader)}
    (h : advance.outcome r = some out) (s : State) :
    (∃ e, out = .error e ∧ run bound s r.lexer.tokens.significant = .error e) ∨
      ∃ u, out = .ok ((), u) ∧ u.lexer.Sound ∧
        run bound s r.lexer.tokens.significant = resume bound s u := by
  obtain ⟨current, lexer⟩ := r
  induction hn : lexer.rest.length using Nat.strong_induction_on generalizing lexer with
  | _ n ih =>
    subst hn
    rw [outcome_advance] at h
    rcases hn : lexer.next with ⟨reply, lexer'⟩
    have hs' := hs.of_next hn
    simp only [hn] at h
    cases hs.answer hn with
    | @failed e _ he ht =>
      obtain rfl := Option.some.inj h
      exact .inl ⟨_, rfl, by simp [ht, scanError, he, Tokens.significant, run]⟩
    | @ended line _ ht =>
      obtain rfl : Except.ok ((), (⟨.endOfInput line, lexer'⟩ : Reader)) = out := by
        simpa [Token.endOfInput] using h
      refine .inr ⟨_, rfl, hs', ?_⟩
      rw [ht, Tokens.significant, run_done s line lexer']
    | @token t _ hk ht =>
      have hlt : lexer'.rest.length < lexer.rest.length := by
        have hle := Lexer.length_le_of_next hn
        simp only [hk, if_false] at hle
        omega
      by_cases hw : t.kind = .whitespace
      · simp only [hw, if_true] at h
        simpa [ht, Tokens.significant, hw] using ih _ hlt lexer' hs' h rfl
      · obtain rfl : Except.ok ((), (⟨t, lexer'⟩ : Reader)) = out := by simpa [hw] using h
        refine .inr ⟨_, rfl, hs', ?_⟩
        rw [ht, Tokens.significant, if_neg hw, run_cons s hk]

/-! ## Rules -/

theorem Agrees.mono (h : Agrees bound s x r after next) {after'' : α → State}
    (hm : ∀ a (u : Reader), next u.current →
      next' u.current ∧ Moves u.current (after a) (after'' a)) :
    Agrees bound s x r after'' next' := by
  intro hs out hout
  have hagreed := h hs out hout
  rcases out with e | ⟨a, u⟩
  · exact hagreed
  · obtain ⟨hu, hn, hr⟩ := hagreed
    obtain ⟨hn', hmoves⟩ := hm a u hn
    exact ⟨hu, hn', hr.trans (resume_of_moves hmoves)⟩

theorem agrees_pure (a : α) (hs : s = after a) (h : next r.current) :
    Agrees bound s (pure a) r after next := by
  intro hsound out hout
  obtain rfl : Except.ok (a, r) = out := Option.some.inj hout
  exact ⟨hsound, h, by rw [hs]⟩

theorem agrees_refuse {problem : ParseProblem}
    (h : feed bound s r.current = .error (.atToken r.current problem)) :
    Agrees bound s (refuse problem : Procedure α) r after next := by
  intro _ out hout
  obtain rfl : Except.error (.atToken r.current problem) = out := Option.some.inj hout
  simp only [Agreed, resume, h]

theorem agrees_lookahead_bind {f : Token → Procedure β}
    (h : Agrees bound s (f r.current) r after' next') :
    Agrees bound s (lookahead >>= f) r after' next' :=
  h

/-- What the lookahead forces is done before it is read. -/
theorem Agrees.of_moves (hm : Moves r.current s s') (h : Agrees bound s' x r after next) :
    Agrees bound s x r after next := by
  intro hs out hout
  have hagreed := h hs out hout
  rcases out with e | ⟨a, u⟩
  · exact (resume_of_moves hm).trans hagreed
  · exact ⟨hagreed.1, hagreed.2.1, (resume_of_moves hm).trans hagreed.2.2⟩

/-- One procedure after the other. -/
theorem Agrees.bind (hx : Agrees bound s x r after next)
    (hf : ∀ a u, x.outcome r = some (.ok (a, u)) → next u.current →
      Agrees bound (after a) (f a) u after' next') :
    Agrees bound s (x >>= f) r after' next' := by
  intro hs out hout
  rw [outcome_bind] at hout
  cases hx' : x.outcome r with
  | none => simp [hx'] at hout
  | some mid =>
    have hagreed := hx hs mid hx'
    rw [hx'] at hout
    rcases mid with e | ⟨a, u⟩
    · obtain rfl : Except.error e = out := Option.some.inj hout
      exact hagreed
    · obtain ⟨hu, hn, hr⟩ := hagreed
      have hnext := hf a u hx' hn hu out hout
      rcases out with e | ⟨b, v⟩
      · exact hr.trans hnext
      · exact ⟨hnext.1, hnext.2.1, hr.trans hnext.2.2⟩

/-- The lookahead is read, by a shift. -/
theorem agrees_advance (hs : Shift r.current s s')
    (hroom : ∀ floor, s.control = .start floor → Room bound s.frames)
    (he : r.current.kind ≠ .endOfInput) :
    Agrees bound s advance r (fun _ => s') (fun _ => True) := by
  intro hsound out hout
  rw [Agreed.eq_def, resume_of_feed (hs.feed_eq_of_room hroom) he]
  obtain ⟨e, rfl, h⟩ | ⟨u, rfl, hu, h⟩ := agreed_advance bound hsound hout s'
  · exact h
  · exact ⟨hu, trivial, h⟩

theorem agrees_advance_bind {f : Unit → Procedure β} (hs : Shift r.current s s')
    (hroom : ∀ floor, s.control = .start floor → Room bound s.frames)
    (he : r.current.kind ≠ .endOfInput)
    (hf : ∀ u : Reader, u.size < r.size → Agrees bound s' (f ()) u after' next') :
    Agrees bound s (advance >>= f) r after' next' := by
  refine (agrees_advance hs hroom he).bind fun _ u hu _ => hf u ?_
  have hadvances : Advances r u := hu
  exact hadvances.size_le.trans_lt (Reader.length_lt_size he)

/-- The lookahead is read if it is of the right kind, and it is refused otherwise. -/
theorem agrees_expect_bind {f : Unit → Procedure β} {kind : Token.Kind} {problem : ParseProblem}
    (he : kind ≠ .endOfInput) (hw : kind ≠ .whitespace) (hroom : ∀ floor, s.control ≠ .start floor)
    (hs : r.current.kind = kind → Shift r.current s s')
    (hfeed : r.current.kind ≠ kind → feed bound s r.current = .error (.atToken r.current problem))
    (hf : ∀ u : Reader, u.size < r.size → Agrees bound s' (f ()) u after' next') :
    Agrees bound s (expect kind problem >>= f) r after' next' := by
  have hexpect : Agrees bound s (expect kind problem) r (fun _ => s') (fun _ => True) := by
    refine agrees_lookahead_bind ?_
    split
    · rename_i hk
      exact agrees_advance (hs hk) (fun floor hc => absurd hc (hroom floor)) (hk ▸ he)
    · rename_i hk
      exact agrees_refuse (hfeed hk)
  refine hexpect.bind fun _ u hu _ => hf u ?_
  exact ((ensures_expect he hw problem r).of_outcome hu).progress.size_lt

/-! ## The procedures -/

/-- Expressions agree if less than `n` is left to read. -/
def Follows (bound n : Nat) : Prop :=
  ∀ r : Reader, r.size < n → ∀ floor frames done,
    Agrees bound ⟨.start floor, frames, done⟩ (expression bound (frames.length, floor)) r
      (fun node => ⟨.complete floor node, frames, done⟩) (fun t => ¬ floor < t.precedence)

/-- An expression in a construct, which is completed with it. -/
theorem Follows.inner (h : Follows bound n) (hr : r.size < n) {frame : Frame} {after : Node → State}
    (hm : ∀ t node, ¬ floor < t.precedence →
      Move t ⟨.complete floor node, frame :: frames, done⟩ (after node)) :
    Agrees bound ⟨.start floor, frame :: frames, done⟩ (expression bound (frames.length + 1, floor)) r
      after (fun _ => True) :=
  (h r hr floor (frame :: frames) done).mono fun _ _ hu => ⟨trivial, .single (hm _ _ hu)⟩

section Procedures

variable {head : Head} {body : List Node} {left : Node} {name : String} {first last : Owner}
  {earlier : List (Node × List Node)}

/-- The state after the block of a head. -/
def closed (floor : Precedence) (head : Head) (frames : List Frame) (done body : List Node) : State :=
  if head.owner = .whileWord then ⟨.complete floor (.whileLoop head.test body), frames, done⟩
  else ⟨.branches floor head.first head.owner (head.earlier ++ [(head.test, body)]), frames, done⟩

theorem shift_closed {t : Token} (hk : t.kind = .rightBrace) :
    Shift t ⟨.block floor head body, frames, done⟩ (closed floor head frames done body) := by
  unfold closed
  split
  · rename_i ho; exact .loopEnd hk ho
  · rename_i ho; exact .branchEnd hk ho

theorem Follows.statements_agrees (h : Follows bound n) (hr : r.size < n) :
    Agrees bound ⟨.block floor head body, frames, done⟩
      (statements bound (frames.length + 1, head.test, head.owner, body)) r
      (closed floor head frames done) (fun _ => True) := by
  induction hs : r.size using Nat.strong_induction_on generalizing r body with
  | _ m ih =>
    subst hs
    rw [statements]
    refine agrees_lookahead_bind ?_
    split
    · rename_i hk
      exact agrees_advance_bind (shift_closed hk) (by simp) (by simp [hk]) fun u _ =>
        agrees_pure body rfl trivial
    · rename_i hk
      exact agrees_refuse (by simp [feed, inBlock, hk])
    · rename_i hb he
      refine .of_moves (.single (.inside hb he)) ?_
      refine (h.inner hr fun t node hp => .statement hp).bind fun node u hu _ => ?_
      have hlt : u.size < r.size := ((expression_progresses ..).of_outcome hu).size_lt
      exact ih u.size hlt (hlt.trans hr) rfl

theorem Follows.block_agrees (h : Follows bound n) (hr : r.size ≤ n) :
    Agrees bound ⟨.opening floor head, frames, done⟩
      (block bound (frames.length + 1, head.test, head.owner)) r
      (closed floor head frames done) (fun _ => True) := by
  rw [block]
  refine agrees_expect_bind (by decide) (by decide) (by simp) .leftBrace (fun hk => ?_) fun u hu => ?_
  · simp [feed, openBlock, hk]
  · exact h.statements_agrees (hu.trans_le hr)

theorem block_size_lt {depth : Nat} {test : Node} {owner : Owner}
    (h : (block bound (depth, test, owner)).outcome r = some (.ok (body, u))) : u.size < r.size :=
  (((within bound _).block_progresses (Nat.lt_succ_self _)).of_outcome h).size_lt

/-- The branches after a block, if the first of them agrees with those behind it. -/
theorem links_agrees
    (hlink : (r.current.isKeyword .elseWord || r.current.isKeyword .elifWord) = true →
      Agrees bound ⟨.branches floor first last earlier, frames, done⟩
        (link bound (frames.length + 1)) r
        (fun more => ⟨.complete floor (chainNode first (earlier ++ more)), frames, done⟩)
        (fun _ => True)) :
    Agrees bound ⟨.branches floor first last earlier, frames, done⟩
      (links bound (frames.length + 1)) r
      (fun more => ⟨.complete floor (chainNode first (earlier ++ more)), frames, done⟩)
      (fun _ => True) := by
  rw [links]
  refine agrees_lookahead_bind ?_
  split
  · rename_i hk
    exact hlink hk
  · rename_i hk
    simp only [Bool.or_eq_true, not_or, Bool.not_eq_true] at hk
    exact .of_moves (.single (.chain hk.1 hk.2)) (agrees_pure [] (by simp) trivial)

/-- A branch, with those that follow it, once its first word has been read as described. -/
theorem Follows.link_agrees (h : Follows bound n) (hr : r.size ≤ n)
    (he : r.current.kind ≠ .endOfInput) (hroom : ∀ floor, s.control = .start floor → Room bound s.frames)
    (helif : r.current.isKeyword .elifWord = true →
      Shift r.current s
        ⟨.start .default, ⟨.test ⟨.elifWord, .missing, first, earlier⟩, floor⟩ :: frames, done⟩)
    (helse : ¬ r.current.isKeyword .elifWord = true →
      Shift r.current s ⟨.opening floor ⟨.elseWord, .missing, first, earlier⟩, frames, done⟩) :
    Agrees bound s (link bound (frames.length + 1)) r
      (fun more => ⟨.complete floor (chainNode first (earlier ++ more)), frames, done⟩)
      (fun _ => True) := by
  induction hs : r.size using Nat.strong_induction_on generalizing r s earlier with
  | _ m ih =>
    subst hs
    rw [link]
    refine agrees_lookahead_bind ?_
    by_cases hk : r.current.isKeyword .elifWord = true
    · refine agrees_advance_bind (helif hk) hroom he fun u hu => ?_
      simp only [hk, if_true]
      refine (h.inner (hu.trans_le hr) fun t node hp => .test hp).bind fun test v hv _ => ?_
      have hv' : v.size < u.size := ((expression_progresses ..).of_outcome hv).size_lt
      refine (h.block_agrees (hv'.trans (hu.trans_le hr)).le).bind fun body w hw _ => ?_
      have hw' : w.size < r.size := (block_size_lt hw).trans (hv'.trans hu)
      have hlinks : Agrees bound
          ⟨.branches floor first .elifWord (earlier ++ [(test, body)]), frames, done⟩
          (links bound (frames.length + 1)) w _ (fun _ => True) := links_agrees fun hk => by
        refine ih w.size hw' (hw'.le.trans hr) (fun he => ?_) (by simp) ?_ ?_ rfl
        · simp [Token.isKeyword, he] at hk
        · exact fun hi => .elifBranch hi (by decide)
        · exact fun hi => .elseBranch (by simpa [hi] using hk) (by decide)
      exact hlinks.bind fun more _ _ _ => agrees_pure _ (by simp) trivial
    · refine agrees_advance_bind (helse hk) hroom he fun u hu => ?_
      simp only [hk]
      refine (h.block_agrees (hu.trans_le hr).le).bind fun body v _ _ => ?_
      refine agrees_lookahead_bind ?_
      split
      · rename_i hk
        exact agrees_refuse (by simp [closed, feed, hk])
      · rename_i hk
        simp only [Bool.or_eq_true, not_or, Bool.not_eq_true] at hk
        exact .of_moves (.single (.chain hk.1 hk.2)) (agrees_pure _ rfl trivial)

theorem Follows.conditional_agrees (h : Follows bound n) (hr : r.size ≤ n)
    (hroom : Room bound frames) (hk : r.current.isKeyword .ifWord = true) :
    Agrees bound ⟨.start floor, frames, done⟩ (conditional bound (frames.length + 1)) r
      (fun node => ⟨.complete floor node, frames, done⟩) (fun _ => True) := by
  have he : r.current.kind ≠ .endOfInput := fun he => by simp [Token.isKeyword, he] at hk
  rw [conditional]
  refine agrees_advance_bind (.tested (.inl rfl) hk) (fun _ _ => hroom) he fun u hu => ?_
  refine (h.inner (hu.trans_le hr) fun t node hp => .test hp).bind fun test v hv _ => ?_
  have hv' : v.size < u.size := ((expression_progresses ..).of_outcome hv).size_lt
  refine (h.block_agrees (hv'.trans (hu.trans_le hr)).le).bind fun body w hw _ => ?_
  have hw' : w.size < r.size := (block_size_lt hw).trans (hv'.trans hu)
  have hlinks : Agrees bound ⟨.branches floor .ifWord .ifWord [(test, body)], frames, done⟩
      (links bound (frames.length + 1)) w _ (fun _ => True) := links_agrees fun hk => by
    refine h.link_agrees (hw'.le.trans hr) (fun he => ?_) (by simp) ?_ ?_
    · simp [Token.isKeyword, he] at hk
    · exact fun hi => .elifBranch hi (by decide)
    · exact fun hi => .elseBranch (by simpa [hi] using hk) (by decide)
  exact hlinks.bind fun more _ _ _ => agrees_pure _ rfl trivial

theorem Follows.loop_agrees (h : Follows bound n) (hr : r.size ≤ n) (hroom : Room bound frames)
    (hk : r.current.isKeyword .whileWord = true) :
    Agrees bound ⟨.start floor, frames, done⟩ (loop bound (frames.length + 1)) r
      (fun node => ⟨.complete floor node, frames, done⟩) (fun _ => True) := by
  have he : r.current.kind ≠ .endOfInput := fun he => by simp [Token.isKeyword, he] at hk
  rw [loop]
  refine agrees_advance_bind (.whileWord hk) (fun _ _ => hroom) he fun u hu => ?_
  have htest : Agrees bound ⟨.loop floor, frames, done⟩ (loopTest bound (frames.length + 1)) u
      (fun test => ⟨.opening floor { Head.starting .whileWord with test }, frames, done⟩)
      (fun _ => True) := by
    rw [loopTest]
    refine agrees_lookahead_bind ?_
    split
    · rename_i hb
      exact .of_moves (.single (.loopBody hb)) (agrees_pure _ rfl trivial)
    · rename_i hb
      exact .of_moves (.single (.loopTest hb)) (h.inner (hu.trans_le hr) fun t node hp => .test hp)
  refine htest.bind fun test v hv _ => ?_
  have hv' : v.size ≤ u.size :=
    (((within bound _).loopTest_returns (Nat.lt_succ_self _)).of_outcome hv).size_le
  refine (h.block_agrees (hv'.trans (hu.trans_le hr).le)).bind fun body w _ _ => ?_
  exact agrees_pure _ rfl trivial

theorem Follows.comparison_agrees (h : Follows bound n) (hr : r.size < n) :
    Agrees bound ⟨.atom floor left, frames, done⟩ (comparison bound (frames.length + 1, left)) r
      (fun node => ⟨.complete floor node, frames, done⟩) (fun _ => True) := by
  rw [comparison]
  refine agrees_lookahead_bind ?_
  split
  · rename_i hk
    refine agrees_advance_bind (.equals hk) (by simp) (by simp [hk]) fun u hu => ?_
    refine (h.inner (hu.trans hr) fun t node hp => .condition hp).bind fun node _ _ _ => ?_
    exact agrees_pure _ rfl trivial
  · rename_i hk
    exact .of_moves (.single (.atom hk)) (agrees_pure left rfl trivial)

theorem Follows.named_agrees (h : Follows bound n) (hr : r.size < n) :
    Agrees bound ⟨.named floor name, frames, done⟩ (named bound (frames.length + 1, name)) r
      (fun node => ⟨.complete floor node, frames, done⟩) (fun _ => True) := by
  rw [named]
  refine agrees_lookahead_bind ?_
  split
  · rename_i hk
    refine agrees_advance_bind (.assign hk) (by simp) (by simp [hk]) fun u hu => ?_
    refine (h.inner (hu.trans hr) fun t node hp => .assignment hp).bind fun node _ _ _ => ?_
    exact agrees_pure _ rfl trivial
  · rename_i hk
    exact .of_moves (.single (.name hk)) (h.comparison_agrees hr)

theorem Follows.negated_agrees (h : Follows bound n) (hr : r.size < n) :
    Agrees bound ⟨.negated floor, frames, done⟩ (negated bound (frames.length + 1)) r
      (fun node => ⟨.atom floor (.negative node), frames, done⟩) (fun _ => True) := by
  rw [negated]
  refine agrees_lookahead_bind ?_
  split
  · rename_i hk
    exact agrees_advance_bind (.negatedNumber hk) (by simp) (by simp [hk]) fun u _ =>
      agrees_pure _ rfl trivial
  · rename_i hk
    exact agrees_advance_bind (.negatedIdentifier hk) (by simp) (by simp [hk]) fun u _ =>
      agrees_pure _ rfl trivial
  · rename_i hn hi
    exact .of_moves (.single (.operand hn hi)) (h.inner hr fun t node hp => .negative hp)

theorem Follows.primary_agrees (h : Follows bound n) (hr : r.size ≤ n) (hroom : Room bound frames) :
    Agrees bound ⟨.start floor, frames, done⟩ (primary bound (frames.length + 1)) r
      (fun node => ⟨.complete floor node, frames, done⟩) (fun _ => True) := by
  have hfeed : feed bound ⟨.start floor, frames, done⟩ r.current =
      startWith bound floor frames done r.current := rfl
  have hroom' : ∀ floor', Control.start floor = .start floor' → Room bound frames := fun _ _ => hroom
  rw [primary]
  refine agrees_lookahead_bind ?_
  split
  · rename_i hk
    refine agrees_advance_bind (.minus hk) hroom' (by simp [hk]) fun u hu => ?_
    refine (h.negated_agrees (hu.trans_le hr)).bind fun operand v hv _ => ?_
    have hv' : v.size < u.size :=
      (((within bound _).negated_progresses (Nat.lt_succ_self _)).of_outcome hv).size_lt
    exact h.comparison_agrees (hv'.trans (hu.trans_le hr))
  · rename_i hk
    exact agrees_advance_bind (.number hk) hroom' (by simp [hk]) fun u hu =>
      h.comparison_agrees (hu.trans_le hr)
  · rename_i hk
    refine agrees_advance_bind (.leftParen hk) hroom' (by simp [hk]) fun u hu => ?_
    have hinner := h u (hu.trans_le hr) .default (⟨.group, floor⟩ :: frames) done
    refine hinner.bind fun inner v _ hp => ?_
    refine agrees_expect_bind (by decide) (by decide) (by simp) .rightParen ?_ fun w _ => ?_
    · intro hk
      simp only [feed]
      rw [deliver]
      simp [hp, hk]
    · exact agrees_pure inner rfl trivial
  · rename_i hk
    exact agrees_advance_bind (.identifier hk) hroom' (by simp [hk]) fun u hu =>
      h.named_agrees (hu.trans_le hr)
  · rename_i hk
    have he : r.current.kind ≠ .endOfInput := by simp [hk]
    split
    · rename_i hw
      exact h.conditional_agrees hr hroom (Token.isKeyword_iff.mpr ⟨hk, hw⟩)
    · rename_i hw
      have hi : r.current.isKeyword .elifWord = true := Token.isKeyword_iff.mpr ⟨hk, hw⟩
      refine .bind (h.link_agrees hr he hroom' (fun _ => .tested (.inr rfl) hi) ?_) ?_
      · exact fun hi' => absurd hi hi'
      · exact fun more _ _ _ => agrees_pure _ rfl trivial
    · rename_i hw
      have hi : ¬ r.current.isKeyword .elifWord = true := by simp [Token.isKeyword, hw]
      have hword : r.current.isKeyword .elseWord = true := Token.isKeyword_iff.mpr ⟨hk, hw⟩
      refine .bind (h.link_agrees hr he hroom' ?_ fun _ => .elseWord hword) ?_
      · exact fun hi' => absurd hi' hi
      · exact fun more _ _ _ => agrees_pure _ rfl trivial
    · rename_i hw
      exact h.loop_agrees hr hroom (Token.isKeyword_iff.mpr ⟨hk, hw⟩)
    · refine agrees_advance_bind (.literal hk fun owner => ?_) hroom' he fun u hu => ?_
      · cases owner <;> assumption
      · exact h.comparison_agrees (hu.trans_le hr)
  · rename_i hk
    exact agrees_refuse (by simp only [hfeed, startWith, if_neg hroom, hk])
  · exact agrees_refuse (by simp only [hfeed, startWith, if_neg hroom])

theorem Follows.operation_agrees (h : Follows bound n) (hr : r.size ≤ n)
    (hp : floor < r.current.precedence) :
    Agrees bound ⟨.complete floor left, frames, done⟩ (operation bound (frames.length + 1, left)) r
      (fun node => ⟨.complete floor node, frames, done⟩) (fun _ => True) := by
  have hk : r.current.kind.isArithmetic = true := isArithmetic_of_lt hp
  have he : r.current.kind ≠ .endOfInput := fun he => by simp [he, Token.Kind.isArithmetic] at hk
  rw [operation]
  refine agrees_lookahead_bind ?_
  simp only [hk, if_true]
  refine agrees_advance_bind (.operator hp) (by simp) he fun u hu => ?_
  refine (h.inner (hu.trans_le hr) fun t node hp => .binary hp).bind fun node _ _ _ => ?_
  exact agrees_pure _ rfl trivial

theorem Follows.operators_agrees (h : Follows bound n) (hr : r.size < n) :
    Agrees bound ⟨.complete floor left, frames, done⟩
      (operators bound (frames.length + 1, floor, left)) r
      (fun node => ⟨.complete floor node, frames, done⟩) (fun t => ¬ floor < t.precedence) := by
  induction hs : r.size using Nat.strong_induction_on generalizing r left with
  | _ m ih =>
    subst hs
    rw [operators]
    refine agrees_lookahead_bind ?_
    split
    · rename_i hp
      refine (h.operation_agrees hr.le hp.2).bind fun node u hu _ => ?_
      have hlt : u.size < r.size :=
        (((within bound _).operation_progresses le_rfl).of_outcome hu).size_lt
      exact ih u.size hlt (hlt.trans hr) rfl
    · rename_i hp
      refine agrees_pure left rfl fun hlt => hp ⟨fun he => ?_, hlt⟩
      simp [Token.precedence, he, Token.Kind.precedence, Precedence.not_lt_default] at hlt

/-- Expressions agree if those with less to read do. -/
theorem Follows.succ (h : Follows bound n) : Follows bound (n + 1) := by
  intro r hr floor frames done
  have hle : r.size ≤ n := Nat.lt_succ_iff.mp hr
  rw [expression]
  split
  · rename_i hb
    exact agrees_refuse (by simp [feed, startWith, hb])
  · rename_i hroom
    refine (h.primary_agrees hle hroom).bind fun left u hu _ => ?_
    have hlt : u.size < r.size :=
      (((within bound _).primary_progresses le_rfl).of_outcome hu).size_lt
    exact h.operators_agrees (hlt.trans_le hle)

theorem follows (bound n : Nat) : Follows bound n := by
  induction n with
  | zero => exact fun r hr => absurd hr (Nat.not_lt_zero _)
  | succ n ih => exact ih.succ

/-- The statements of a text are those that the parser with the stack has read at the end. -/
theorem program_agrees (bound : Nat) (done : List Node) (r : Reader) :
    Agrees bound ⟨.top, [], done⟩ (program bound done) r (fun nodes => ⟨.top, [], nodes⟩)
      (fun t => t.kind = .endOfInput) := by
  induction hs : r.size using Nat.strong_induction_on generalizing r done with
  | _ m ih =>
    subst hs
    rw [program]
    refine agrees_lookahead_bind ?_
    split
    · rename_i hk
      exact agrees_pure done rfl hk
    · rename_i hk
      refine .of_moves (.single (.fresh hk)) ?_
      have hexpression := follows bound (r.size + 1) r (Nat.lt_succ_self _) .default [] done
      have hstatement : Agrees bound ⟨.start .default, [], done⟩ (expression bound (0, .default)) r
          (fun node => ⟨.top, [], done ++ [node]⟩) (fun _ => True) :=
        hexpression.mono fun _ _ hp => ⟨trivial, .single (.last hp)⟩
      refine hstatement.bind fun node u hu _ => ?_
      exact ih u.size ((expression_progresses ..).of_outcome hu).size_lt _ u rfl

end Procedures

/-- Recursive descent returns what the parser with the stack gives. -/
theorem parse_eq (bound : Nat) (text : String) :
    parse bound text = some (Parser.parse bound text) := by
  have hsound : (Lexer.ofText text).Sound := Lexer.sound_ofText text
  obtain ⟨out, hout, -⟩ := whole_returns bound ⟨.endOfInput 0, .ofText text⟩
  rw [parse, hout, Parser.parse, ← Lexer.tokens_ofText, State.initial]
  rw [whole, outcome_bind] at hout
  cases hadvance : advance.outcome ⟨.endOfInput 0, .ofText text⟩ with
  | none => simp [hadvance] at hout
  | some first =>
    rw [hadvance] at hout
    obtain ⟨e, rfl, h⟩ | ⟨u, rfl, hu, h⟩ := agreed_advance bound hsound hadvance ⟨.top, [], []⟩
    · obtain rfl : Except.error e = out := Option.some.inj hout
      exact congrArg some h.symm
    · have hagreed := program_agrees bound [] u hu out hout
      rw [h]
      rcases out with e | ⟨nodes, v⟩
      · exact congrArg some hagreed.symm
      · obtain ⟨-, hend, hr⟩ := hagreed
        rw [hr]
        simp [resume, feed, atTop, hend, Except.map]

/--
Reading ends on every text, with or without a bound. A procedure that returns a value for a
construct has consumed a token that counts, which leaves less to read; so the loops and the
recursion through the branches return as well, from every reader, although the end of the text is
answered again and again.
-/
theorem reading_ends (bound : Nat) :
    (∀ text, parse bound text = some (Parser.parse bound text)) ∧
      (∀ (depth : Nat) (r : Reader),
        (∀ floor, Progresses (expression bound (depth, floor)) r) ∧
        Progresses (primary bound depth) r ∧
        (∀ left, Progresses (operation bound (depth, left)) r) ∧
        Progresses (conditional bound depth) r ∧
        Progresses (link bound depth) r ∧
        Progresses (loop bound depth) r ∧
        ∀ test owner, Progresses (block bound (depth, test, owner)) r) ∧
      (∀ r r' : Reader, Progress r r' → r'.size < r.size) ∧
      (∀ (depth : Nat) (r : Reader),
        (∀ floor left, Returns (operators bound (depth, floor, left)) r) ∧
        (∀ test owner body, Returns (statements bound (depth, test, owner, body)) r) ∧
        Returns (links bound depth) r ∧
        (∀ done, Returns (program bound done) r) ∧
        Returns advance r ∧
        Returns (whole bound) r) ∧
      ∀ (s s' : Lexer) (t : Token), s.next = (some t, s') → t.kind = .endOfInput →
        s'.next = (some (.endOfInput s'.line), s') := by
  refine ⟨parse_eq bound, fun depth r => ?_, fun _ _ => Progress.size_lt, fun depth r => ?_,
    fun _ _ _ => Lexer.next_eq_self_of_endOfInput⟩
  · have hwithin := within bound (r.lexer.rest.length + 1)
    have hlt : r.lexer.rest.length < r.lexer.rest.length + 1 := Nat.lt_succ_self _
    exact ⟨fun floor => expression_progresses bound depth floor r,
      (within bound r.size).primary_progresses le_rfl,
      fun left => (within bound r.size).operation_progresses le_rfl,
      hwithin.conditional_progresses hlt, hwithin.link_progresses hlt, hwithin.loop_progresses hlt,
      fun test owner => hwithin.block_progresses hlt⟩
  · have hwithin := within bound (r.size + 1)
    have hlt : r.size < r.size + 1 := Nat.lt_succ_self _
    exact ⟨fun floor left => hwithin.operators_returns hlt floor,
      fun test owner body => (hwithin.statements_progresses hlt).returns,
      links_returns fun _ => hwithin.link_progresses (r.length_le_size.trans_lt hlt),
      fun done => program_returns bound done r, returns_advance r, whole_returns bound r⟩

/-- An open block is reported once, although the end of the text could be read for ever. -/
theorem reading_ends_open_block :
    ∃ e, parse 0 "if a \x7b b" = some (.error e) := by
  have hrefused : (Parser.parse 0 "if a \x7b b").toOption.isSome = false := by cbv
  have hends := (reading_ends 0).1 "if a \x7b b"
  cases hparse : Parser.parse 0 "if a \x7b b" with
  | error e => exact ⟨e, hparse ▸ hends⟩
  | ok nodes => simp [hparse, Except.toOption] at hrefused

end Descent

end Scriptlet
