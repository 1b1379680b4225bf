import Mathlib
import Scriptlet.Node.Parser

/-!
# The steps of the parser

Feeding a token does two things. The token first completes what it cannot extend: a finished operand
goes down the stack, frame by frame, and a construct that has to begin opens its frame. These moves
leave the token where it is. Then the token itself is read, by exactly one shift.

Everything that later modules say about the parser is said about one move and one shift, and carried
over to whole texts from there.

## Main definitions

* `Parser.Move`, `Parser.Moves`: what a token forces before it is read
* `Parser.Shift`: how a token is read
* `Parser.Settled`: where the moves of a token end
* `Parser.feedAll`: the state after several tokens

## Main statements

* `Parser.Move.feed_eq`: a move does not change what feeding the token gives
* `Parser.Shift.feed_eq`: without a bound on the depth, every shift can be taken
* `Parser.settles`: the moves of a token do end
* `Parser.exists_shift_of_feed`: every token that is accepted makes some moves and one shift
* `Parser.feedAll_induction`: what moves and shifts preserve holds after any number of tokens
-/

namespace Scriptlet

/-- The reserved word that starts a block of the owner. -/
def Owner.keyword : Owner → Keyword
  | ifWord => .ifWord
  | elifWord => .elifWord
  | elseWord => .elseWord
  | whileWord => .whileWord

/-- The reserved word of an owner as a token. -/
def Owner.token : Owner → Token
  | ifWord => { kind := .literal, text := "if", keyword := .ifWord }
  | elifWord => { kind := .literal, text := "elif", keyword := .elifWord }
  | elseWord => { kind := .literal, text := "else", keyword := .elseWord }
  | whileWord => { kind := .literal, text := "while", keyword := .whileWord }

/-- The tokens of a block, from those of its statements. -/
def Token.inBraces (ts : List Token) : List Token :=
  { kind := .leftBrace } :: (ts ++ [{ kind := .rightBrace }])

theorem Owner.ne_keyword {k : Keyword} (h : k ∉ [.ifWord, .elifWord, .elseWord, .whileWord])
    (owner : Owner) : k ≠ owner.keyword := by
  rintro rfl
  cases owner <;> simp [Owner.keyword] at h

theorem Owner.isKeyword_token (owner : Owner) : owner.token.isKeyword owner.keyword := by
  cases owner <;> rfl

theorem Token.isKeyword_iff {t : Token} {k : Keyword} :
    t.isKeyword k ↔ t.kind = .literal ∧ t.keyword = k := by
  simp [isKeyword]

theorem Precedence.not_lt_default (p : Precedence) : ¬ p < .default :=
  Nat.not_lt_zero _

namespace Parser

/-- A change of state that `t` forces, and after which it has still to be read. -/
inductive Move (t : Token) : State → State → Prop where
  | name {floor name frames done} (ha : t.kind ≠ .assign) :
      Move t ⟨.named floor name, frames, done⟩ ⟨.atom floor (.identifier name), frames, done⟩
  | atom {floor node frames done} (he : t.kind ≠ .equals) :
      Move t ⟨.atom floor node, frames, done⟩ ⟨.complete floor node, frames, done⟩
  | chain {floor first last links frames done} (he : t.isKeyword .elseWord = false)
      (hi : t.isKeyword .elifWord = false) :
      Move t ⟨.branches floor first last links, frames, done⟩
        ⟨.complete floor (chainNode first links), frames, done⟩
  | binary {floor outer node left op frames done} (hp : ¬ floor < t.precedence) :
      Move t ⟨.complete floor node, ⟨.operand left op, outer⟩ :: frames, done⟩
        ⟨.complete outer (.binary op left node), frames, done⟩
  | negative {floor outer node frames done} (hp : ¬ floor < t.precedence) :
      Move t ⟨.complete floor node, ⟨.negation, outer⟩ :: frames, done⟩
        ⟨.atom outer (.negative node), frames, done⟩
  | assignment {floor outer node target frames done} (hp : ¬ floor < t.precedence) :
      Move t ⟨.complete floor node, ⟨.value target, outer⟩ :: frames, done⟩
        ⟨.complete outer (.assignment (some target) node), frames, done⟩
  | condition {floor outer node left frames done} (hp : ¬ floor < t.precedence) :
      Move t ⟨.complete floor node, ⟨.comparand left, outer⟩ :: frames, done⟩
        ⟨.complete outer (.condition left node), frames, done⟩
  | test {floor outer node head frames done} (hp : ¬ floor < t.precedence) :
      Move t ⟨.complete floor node, ⟨.test head, outer⟩ :: frames, done⟩
        ⟨.opening outer { head with test := node }, frames, done⟩
  | statement {floor outer node head body frames done} (hp : ¬ floor < t.precedence) :
      Move t ⟨.complete floor node, ⟨.statement head body, outer⟩ :: frames, done⟩
        ⟨.block outer head (body ++ [node]), frames, done⟩
  | last {floor node done} (hp : ¬ floor < t.precedence) :
      Move t ⟨.complete floor node, [], done⟩ ⟨.top, [], done ++ [node]⟩
  | fresh {frames done} (he : t.kind ≠ .endOfInput) :
      Move t ⟨.top, frames, done⟩ ⟨.start .default, frames, done⟩
  | inside {floor head body frames done} (hb : t.kind ≠ .rightBrace) (he : t.kind ≠ .endOfInput) :
      Move t ⟨.block floor head body, frames, done⟩
        ⟨.start .default, ⟨.statement head body, floor⟩ :: frames, done⟩
  | operand {floor frames done} (hn : t.kind ≠ .number) (hi : t.kind ≠ .identifier) :
      Move t ⟨.negated floor, frames, done⟩
        ⟨.start .negativeValue, ⟨.negation, floor⟩ :: frames, done⟩
  | loopTest {floor frames done} (hb : t.kind ≠ .leftBrace) :
      Move t ⟨.loop floor, frames, done⟩
        ⟨.start .default, ⟨.test (.starting .whileWord), floor⟩ :: frames, done⟩
  | loopBody {floor frames done} (hb : t.kind = .leftBrace) :
      Move t ⟨.loop floor, frames, done⟩ ⟨.opening floor (.starting .whileWord), frames, done⟩

/-- Any number of moves. -/
abbrev Moves (t : Token) : State → State → Prop :=
  Relation.ReflTransGen (Move t)

/-- The token `t` is read. -/
inductive Shift (t : Token) : State → State → Prop where
  | minus {floor frames done} (hk : t.kind = .subtract) :
      Shift t ⟨.start floor, frames, done⟩ ⟨.negated floor, frames, done⟩
  | number {floor frames done} (hk : t.kind = .number) :
      Shift t ⟨.start floor, frames, done⟩ ⟨.atom floor (.number t.number), frames, done⟩
  | leftParen {floor frames done} (hk : t.kind = .leftParen) :
      Shift t ⟨.start floor, frames, done⟩ ⟨.start .default, ⟨.group, floor⟩ :: frames, done⟩
  | identifier {floor frames done} (hk : t.kind = .identifier) :
      Shift t ⟨.start floor, frames, done⟩ ⟨.named floor t.text, frames, done⟩
  | tested {floor frames done} {owner : Owner} (ho : owner = .ifWord ∨ owner = .elifWord)
      (hk : t.isKeyword owner.keyword) :
      Shift t ⟨.start floor, frames, done⟩
        ⟨.start .default, ⟨.test (.starting owner), floor⟩ :: frames, done⟩
  | elseWord {floor frames done} (hk : t.isKeyword .elseWord) :
      Shift t ⟨.start floor, frames, done⟩ ⟨.opening floor (.starting .elseWord), frames, done⟩
  | whileWord {floor frames done} (hk : t.isKeyword .whileWord) :
      Shift t ⟨.start floor, frames, done⟩ ⟨.loop floor, frames, done⟩
  | literal {floor frames done} (hk : t.kind = .literal)
      (ho : ∀ owner : Owner, t.keyword ≠ owner.keyword) :
      Shift t ⟨.start floor, frames, done⟩ ⟨.atom floor (.literal t.text t.keyword), frames, done⟩
  | negatedNumber {floor frames done} (hk : t.kind = .number) :
      Shift t ⟨.negated floor, frames, done⟩
        ⟨.atom floor (.negative (.number t.number)), frames, done⟩
  | negatedIdentifier {floor frames done} (hk : t.kind = .identifier) :
      Shift t ⟨.negated floor, frames, done⟩
        ⟨.atom floor (.negative (.identifier t.text)), frames, done⟩
  | assign {floor name frames done} (hk : t.kind = .assign) :
      Shift t ⟨.named floor name, frames, done⟩
        ⟨.start .default, ⟨.value name, floor⟩ :: frames, done⟩
  | equals {floor node frames done} (hk : t.kind = .equals) :
      Shift t ⟨.atom floor node, frames, done⟩
        ⟨.start .default, ⟨.comparand node, floor⟩ :: frames, done⟩
  | operator {floor node frames done} (hp : floor < t.precedence) :
      Shift t ⟨.complete floor node, frames, done⟩
        ⟨.start t.precedence, ⟨.operand node t.kind, floor⟩ :: frames, done⟩
  | rightParen {floor outer node frames done} (hk : t.kind = .rightParen) :
      Shift t ⟨.complete floor node, ⟨.group, outer⟩ :: frames, done⟩
        ⟨.complete outer node, frames, done⟩
  | leftBrace {floor head frames done} (hk : t.kind = .leftBrace) :
      Shift t ⟨.opening floor head, frames, done⟩ ⟨.block floor head [], frames, done⟩
  | loopEnd {floor head body frames done} (hk : t.kind = .rightBrace)
      (ho : head.owner = .whileWord) :
      Shift t ⟨.block floor head body, frames, done⟩
        ⟨.complete floor (.whileLoop head.test body), frames, done⟩
  | branchEnd {floor head body frames done} (hk : t.kind = .rightBrace)
      (ho : head.owner ≠ .whileWord) :
      Shift t ⟨.block floor head body, frames, done⟩
        ⟨.branches floor head.first head.owner (head.earlier ++ [(head.test, body)]), frames, done⟩
  | elifBranch {floor first last links frames done} (hk : t.isKeyword .elifWord)
      (hl : last ≠ .elseWord) :
      Shift t ⟨.branches floor first last links, frames, done⟩
        ⟨.start .default, ⟨.test ⟨.elifWord, .missing, first, links⟩, floor⟩ :: frames, done⟩
  | elseBranch {floor first last links frames done} (hk : t.isKeyword .elseWord)
      (hl : last ≠ .elseWord) :
      Shift t ⟨.branches floor first last links, frames, done⟩
        ⟨.opening floor ⟨.elseWord, .missing, first, links⟩, frames, done⟩
  | finish {frames done} (hk : t.kind = .endOfInput) :
      Shift t ⟨.top, frames, done⟩ ⟨.top, frames, done⟩

/-- A state in which `t` is looked at itself. -/
inductive Settled (t : Token) : State → Prop where
  | start {floor frames done} : Settled t ⟨.start floor, frames, done⟩
  | negated {floor frames done} (hk : t.kind = .number ∨ t.kind = .identifier) :
      Settled t ⟨.negated floor, frames, done⟩
  | named {floor name frames done} (hk : t.kind = .assign) :
      Settled t ⟨.named floor name, frames, done⟩
  | atom {floor node frames done} (hk : t.kind = .equals) :
      Settled t ⟨.atom floor node, frames, done⟩
  | operator {floor node frames done} (hp : floor < t.precedence) :
      Settled t ⟨.complete floor node, frames, done⟩
  | group {floor outer node frames done} (hp : ¬ floor < t.precedence) :
      Settled t ⟨.complete floor node, ⟨.group, outer⟩ :: frames, done⟩
  | opening {floor head frames done} : Settled t ⟨.opening floor head, frames, done⟩
  | block {floor head body frames done} (hk : t.kind = .rightBrace ∨ t.kind = .endOfInput) :
      Settled t ⟨.block floor head body, frames, done⟩
  | branches {floor first last links frames done}
      (hk : t.isKeyword .elseWord || t.isKeyword .elifWord) :
      Settled t ⟨.branches floor first last links, frames, done⟩
  | top {frames done} (hk : t.kind = .endOfInput) : Settled t ⟨.top, frames, done⟩

variable {bound : Nat} {t : Token} {s s' u : State} {floor : Precedence} {node : Node}
  {frames : List Frame} {done : List Node}

/-! ## Moves and shifts are what feeding does -/

theorem isArithmetic_of_lt (hp : floor < t.precedence) : t.kind.isArithmetic := by
  rw [Token.Kind.isArithmetic_iff_lt_precedence]
  exact Nat.lt_of_le_of_lt (Nat.zero_le _) hp

/-- An operator that binds tightly enough takes the operand; no other kind of token gets here. -/
theorem deliver_of_lt (hp : floor < t.precedence) :
    deliver bound t floor node frames done =
      .ok ⟨.start t.precedence, ⟨.operand node t.kind, floor⟩ :: frames, done⟩ := by
  rw [deliver.eq_def]
  simp [hp, isArithmetic_of_lt hp]

theorem Move.feed_eq (h : Move t s u) : feed bound s t = feed bound u t := by
  cases h with
  | name ha =>
    simp only [feed]
    split <;> simp_all
  | atom he => simp [feed, he]
  | chain he hi => simp [feed, he, hi]
  | binary hp | negative hp | assignment hp | condition hp | test hp | statement hp =>
    simp only [feed]
    rw [deliver]
    simp [hp]
  | last hp =>
    simp only [feed]
    rw [deliver.eq_def]
    simp [hp]
  | fresh he => simp [feed, atTop, he]
  | inside hb he => simp only [feed, inBlock]
  | operand hn hi => simp only [feed]
  | loopTest hb => simp [feed, hb]
  | loopBody hb => simp [feed, hb, openBlock]

theorem Moves.feed_eq (h : Moves t s u) : feed bound s t = feed bound u t := by
  induction h with
  | refl => rfl
  | tail _ hm ih => exact ih.trans hm.feed_eq

theorem Shift.feed_eq (h : Shift t s u) : feed 0 s t = .ok u := by
  cases h with
  | minus hk | number hk | leftParen hk | identifier hk => simp [feed, startWith, hk]
  | tested ho hk =>
    obtain ⟨hl, hw⟩ := Token.isKeyword_iff.mp hk
    rcases ho with rfl | rfl <;> simp [feed, startWith, hl, hw, Owner.keyword]
  | elseWord hk | whileWord hk =>
    obtain ⟨hk, hw⟩ := Token.isKeyword_iff.mp hk
    simp [feed, startWith, hk, hw]
  | literal hk ho =>
    have hi := ho .ifWord
    have hf := ho .elifWord
    have he := ho .elseWord
    have hw := ho .whileWord
    simp only [Owner.keyword] at hi hf he hw
    simp only [feed, startWith, hk]
    split <;> simp_all
  | negatedNumber hk | negatedIdentifier hk | assign hk => simp [feed, hk]
  | equals hk => simp [feed, hk, compare]
  | operator hp => exact deliver_of_lt hp
  | rightParen hk =>
    have hp : t.precedence = .default := by simp [Token.precedence, hk, Token.Kind.precedence]
    simp only [feed]
    rw [deliver]
    simp [hp, Precedence.not_lt_default, hk]
  | leftBrace hk => simp [feed, openBlock, hk]
  | loopEnd hk ho | branchEnd hk ho => simp [feed, inBlock, hk, ho]
  | elifBranch hk hl => simp [feed, hk, hl]
  | elseBranch hk hl =>
    have hi : t.isKeyword .elifWord = false := by simp_all [Token.isKeyword]
    simp [feed, hk, hl, hi]
  | finish hk => simp [feed, atTop, hk]

/-! ## Where the moves end -/

/-- The token `t` makes the state settle somewhere. -/
def Settles (t : Token) (s : State) : Prop := ∃ u, Moves t s u ∧ Settled t u

theorem Settled.settles (h : Settled t s) : Settles t s := ⟨s, .refl, h⟩

theorem Move.settles (h : Move t s u) (hu : Settles t u) : Settles t s := by
  obtain ⟨v, hv, hs⟩ := hu
  exact ⟨v, .head h hv, hs⟩

theorem settles_top : Settles t ⟨.top, frames, done⟩ := by
  by_cases hk : t.kind = .endOfInput
  · exact (Settled.top hk).settles
  · exact (Move.fresh hk).settles Settled.start.settles

theorem settles_block {head : Head} {body : List Node} :
    Settles t ⟨.block floor head body, frames, done⟩ := by
  by_cases hk : t.kind = .rightBrace ∨ t.kind = .endOfInput
  · exact (Settled.block hk).settles
  · rw [not_or] at hk
    exact (Move.inside hk.1 hk.2).settles Settled.start.settles

/-- The induction is on the stack: every move down it leaves one frame less. -/
theorem settles_complete : Settles t ⟨.complete floor node, frames, done⟩ := by
  by_cases hp : floor < t.precedence
  · exact (Settled.operator hp).settles
  induction frames generalizing floor node with
  | nil => exact (Move.last hp).settles settles_top
  | cons frame frames ih =>
    have down {floor node} : Settles t ⟨.complete floor node, frames, done⟩ := by
      by_cases hp : floor < t.precedence
      · exact (Settled.operator hp).settles
      · exact ih hp
    obtain ⟨pending, outer⟩ := frame
    cases pending with
    | operand left op => exact (Move.binary hp).settles down
    | negation =>
      refine (Move.negative hp).settles ?_
      by_cases he : t.kind = .equals
      · exact (Settled.atom he).settles
      · exact (Move.atom he).settles down
    | group => exact (Settled.group hp).settles
    | value target => exact (Move.assignment hp).settles down
    | comparand left => exact (Move.condition hp).settles down
    | test head => exact (Move.test hp).settles Settled.opening.settles
    | statement head body => exact (Move.statement hp).settles settles_block

theorem settles_atom : Settles t ⟨.atom floor node, frames, done⟩ := by
  by_cases he : t.kind = .equals
  · exact (Settled.atom he).settles
  · exact (Move.atom he).settles settles_complete

theorem settles (t : Token) (s : State) : Settles t s := by
  obtain ⟨control, frames, done⟩ := s
  cases control with
  | top => exact settles_top
  | block floor head body => exact settles_block
  | start floor => exact Settled.start.settles
  | negated floor =>
    by_cases hk : t.kind = .number ∨ t.kind = .identifier
    · exact (Settled.negated hk).settles
    · rw [not_or] at hk
      exact (Move.operand hk.1 hk.2).settles Settled.start.settles
  | named floor name =>
    by_cases hk : t.kind = .assign
    · exact (Settled.named hk).settles
    · exact (Move.name hk).settles settles_atom
  | atom floor node => exact settles_atom
  | complete floor node => exact settles_complete
  | loop floor =>
    by_cases hk : t.kind = .leftBrace
    · exact (Move.loopBody hk).settles Settled.opening.settles
    · exact (Move.loopTest hk).settles Settled.start.settles
  | opening floor head => exact Settled.opening.settles
  | branches floor first last links =>
    by_cases hk : t.isKeyword .elseWord || t.isKeyword .elifWord
    · exact (Settled.branches hk).settles
    · simp only [Bool.or_eq_true, not_or, Bool.not_eq_true] at hk
      exact (Move.chain hk.1 hk.2).settles settles_complete

theorem startWith_outcome (bound : Nat) (floor : Precedence) (frames : List Frame)
    (done : List Node) (t : Token) :
    (∃ s', startWith bound floor frames done t = .ok s' ∧ Shift t ⟨.start floor, frames, done⟩ s') ∨
      ∃ problem, startWith bound floor frames done t = .error (.atToken t problem) := by
  unfold startWith
  split
  · exact .inr ⟨_, rfl⟩
  · split
    · rename_i hk; exact .inl ⟨_, rfl, .minus hk⟩
    · rename_i hk; exact .inl ⟨_, rfl, .number hk⟩
    · rename_i hk; exact .inl ⟨_, rfl, .leftParen hk⟩
    · rename_i hk; exact .inl ⟨_, rfl, .identifier hk⟩
    · rename_i hk
      split
      · rename_i hw
        exact .inl ⟨_, rfl, .tested (.inl rfl) (Token.isKeyword_iff.mpr ⟨hk, hw⟩)⟩
      · rename_i hw
        exact .inl ⟨_, rfl, .tested (.inr rfl) (Token.isKeyword_iff.mpr ⟨hk, hw⟩)⟩
      · rename_i hw; exact .inl ⟨_, rfl, .elseWord (Token.isKeyword_iff.mpr ⟨hk, hw⟩)⟩
      · rename_i hw; exact .inl ⟨_, rfl, .whileWord (Token.isKeyword_iff.mpr ⟨hk, hw⟩)⟩
      · refine .inl ⟨_, rfl, .literal hk fun owner => ?_⟩
        cases owner <;> simpa [Owner.keyword]
    · exact .inr ⟨_, rfl⟩
    · exact .inr ⟨_, rfl⟩

/-- In a settled state the token is read by a shift, or it is the token that is refused. -/
theorem Settled.outcome (bound : Nat) (h : Settled t s) :
    (∃ s', feed bound s t = .ok s' ∧ Shift t s s') ∨
      ∃ problem, feed bound s t = .error (.atToken t problem) := by
  cases h with
  | start => exact startWith_outcome ..
  | negated hk =>
    rcases hk with hk | hk
    · exact .inl ⟨_, by simp [feed, hk], .negatedNumber hk⟩
    · exact .inl ⟨_, by simp [feed, hk], .negatedIdentifier hk⟩
  | named hk => exact .inl ⟨_, by simp [feed, hk], .assign hk⟩
  | atom hk => exact .inl ⟨_, by simp [feed, hk, compare], .equals hk⟩
  | operator hp => exact .inl ⟨_, deliver_of_lt hp, .operator hp⟩
  | group hp =>
    simp only [feed]
    rw [deliver]
    simp only [hp, if_false]
    split
    · rename_i hk; exact .inl ⟨_, rfl, .rightParen hk⟩
    · exact .inr ⟨_, rfl⟩
  | opening =>
    simp only [feed, openBlock]
    split
    · rename_i hk; exact .inl ⟨_, rfl, .leftBrace hk⟩
    · exact .inr ⟨_, rfl⟩
  | @block floor head body frames done hk =>
    rcases hk with hk | hk
    · by_cases ho : head.owner = .whileWord
      · exact .inl ⟨_, by simp [feed, inBlock, hk, ho], .loopEnd hk ho⟩
      · exact .inl ⟨_, by simp [feed, inBlock, hk, ho], .branchEnd hk ho⟩
    · exact .inr ⟨.missingClosing head.test head.owner, by simp [feed, inBlock, hk]⟩
  | @branches floor first last links frames done hk =>
    by_cases hl : last = .elseWord
    · exact .inr ⟨.afterFinalElse, by simp [feed, hk, hl]⟩
    · by_cases hi : t.isKeyword .elifWord
      · exact .inl ⟨_, by simp [feed, hl, hi], .elifBranch hi hl⟩
      · have he : t.isKeyword .elseWord := by simpa [hi] using hk
        exact .inl ⟨_, by simp [feed, hl, hi, he], .elseBranch he hl⟩
  | top hk => exact .inl ⟨_, by simp [feed, atTop, hk], .finish hk⟩

/-- A token that is accepted makes some moves and one shift, whatever the bound is. -/
theorem exists_shift_of_feed (h : feed bound s t = .ok s') : ∃ u, Moves t s u ∧ Shift t u s' := by
  obtain ⟨u, hm, hu⟩ := settles t s
  rw [Moves.feed_eq hm] at h
  rcases hu.outcome bound with ⟨v, hv, hs⟩ | ⟨problem, hp⟩
  · obtain rfl : s' = v := by simpa [h] using hv
    exact ⟨u, hm, hs⟩
  · simp [h] at hp

/-- A token that is not accepted is the one that the error names. -/
theorem exists_problem_of_feed {e : ParseError} (h : feed bound s t = .error e) :
    ∃ problem, e = .atToken t problem := by
  obtain ⟨u, hm, hu⟩ := settles t s
  rw [Moves.feed_eq hm] at h
  rcases hu.outcome bound with ⟨v, hv, hs⟩ | ⟨problem, hp⟩
  · simp [h] at hv
  · exact ⟨problem, by simpa [h] using hp⟩

/-! ## Tokens after an operand -/

/-- A token that goes on with no name, atom or chain: an operator, a bracket or the end. -/
structure Ends (t : Token) : Prop where
  notAssign : t.kind ≠ .assign
  notEquals : t.kind ≠ .equals
  notLiteral : t.kind ≠ .literal

theorem Ends.moves_atom (h : Ends t) :
    Moves t ⟨.atom floor node, frames, done⟩ ⟨.complete floor node, frames, done⟩ :=
  .single (.atom h.notEquals)

theorem Ends.moves_named (h : Ends t) {name : String} :
    Moves t ⟨.named floor name, frames, done⟩ ⟨.complete floor (.identifier name), frames, done⟩ :=
  .head (.name h.notAssign) h.moves_atom

theorem Ends.moves_branches (h : Ends t) {first last : Owner} {links : List (Node × List Node)} :
    Moves t ⟨.branches floor first last links, frames, done⟩
      ⟨.complete floor (chainNode first links), frames, done⟩ :=
  .single (.chain (by simp [Token.isKeyword, h.notLiteral]) (by simp [Token.isKeyword, h.notLiteral]))

/-! ## Several tokens -/

/-- The state after the given tokens. -/
def feedAll (bound : Nat) (s : State) : List Token → Except ParseError State
  | [] => .ok s
  | t :: ts =>
    match feed bound s t with
    | .error e => .error e
    | .ok s => feedAll bound s ts

theorem feedAll_cons_of_ok {ts : List Token} (h : feed bound s t = .ok u) :
    feedAll bound s (t :: ts) = feedAll bound u ts := by
  simp [feedAll, h]

theorem feedAll_append {ts ts' : List Token} (h : feedAll bound s ts = .ok u) :
    feedAll bound s (ts ++ ts') = feedAll bound u ts' := by
  induction ts generalizing s with
  | nil => cases h; rfl
  | cons t ts ih =>
    cases hf : feed bound s t with
    | error e => simp [feedAll, hf] at h
    | ok v =>
      rw [feedAll_cons_of_ok hf] at h
      rw [List.cons_append, feedAll_cons_of_ok hf, ih h]

theorem exists_feed_of_feedAll_cons {ts : List Token} (h : feedAll bound s (t :: ts) = .ok u) :
    ∃ v, feed bound s t = .ok v ∧ feedAll bound v ts = .ok u := by
  cases hf : feed bound s t with
  | error e => simp [feedAll, hf] at h
  | ok v => exact ⟨v, rfl, by rwa [feedAll_cons_of_ok hf] at h⟩

theorem exists_feedAll_of_append {ts ts' : List Token} (h : feedAll bound s (ts ++ ts') = .ok u) :
    ∃ v, feedAll bound s ts = .ok v ∧ feedAll bound v ts' = .ok u := by
  induction ts generalizing s with
  | nil => exact ⟨s, rfl, h⟩
  | cons t ts ih =>
    obtain ⟨w, hw, hrest⟩ := exists_feed_of_feedAll_cons h
    obtain ⟨v, hv, hu⟩ := ih hrest
    exact ⟨v, by rw [feedAll_cons_of_ok hw, hv], hu⟩

/-- What every token that is accepted preserves, any number of tokens does. -/
theorem feedAll_preserves {P : State → Prop} {ts : List Token}
    (step : ∀ {t s u}, feed bound s t = .ok u → P s → P u) (h : feedAll bound s ts = .ok u)
    (hs : P s) : P u := by
  induction ts generalizing s with
  | nil => cases h; exact hs
  | cons t ts ih =>
    obtain ⟨v, hv, hrest⟩ := exists_feed_of_feedAll_cons h
    exact ih hrest (step hv hs)

theorem Moves.induction {P : State → Prop} (move : ∀ {s u}, Move t s u → P s → P u)
    (h : Moves t s u) (hs : P s) : P u := by
  induction h with
  | refl => exact hs
  | tail _ hm ih => exact move hm ih

/--
What every move preserves, and every shift of a token of some class, any number of such tokens does.
The property may speak of the tokens that were read and of the one that is read next.
-/
theorem feedAll_induction {P : List Token → Token → State → Prop} {C : Token → Prop}
    {ts : List Token} (move : ∀ {ts t s u}, Move t s u → P ts t s → P ts t u)
    (shift : ∀ {ts t s u}, C t → Shift t s u → P ts t s → ∀ next, P (ts ++ [t]) next u)
    (hc : ∀ t ∈ ts, C t) (h : feedAll bound s ts = .ok s') {before : List Token}
    (hs : ∀ next, P before next s) : ∀ next, P (before ++ ts) next s' := by
  induction ts generalizing s before with
  | nil => cases h; simpa using hs
  | cons t ts ih =>
    have ht := hc t List.mem_cons_self
    cases hf : feed bound s t with
    | error e => simp [feedAll, hf] at h
    | ok v =>
      rw [feedAll_cons_of_ok hf] at h
      obtain ⟨u, hm, hu⟩ := exists_shift_of_feed hf
      have hpu : P before t u := hm.induction move (hs t)
      rw [List.append_cons]
      exact ih (fun t' ht' => hc t' (List.mem_cons_of_mem _ ht')) h (shift ht hu hpu)

end Parser

end Scriptlet
