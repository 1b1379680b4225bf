import Scriptlet.Proofs.Grouping
import Scriptlet.Proofs.Parser.Framing

/-!
# A minus in front of an equality test

A minus takes a number or a name alone, so an equality sign after it compares the negated value. Any
other operand is read as an expression of its own, and an equality sign that follows a literal or a
negation there belongs to the operand. So from the second minus on, and in front of a literal, a minus
takes the equality test as a whole.

## Main definitions

* `Node.isBare`: numbers and names, which a minus takes alone
* `Parser.State.trees`: the trees in a state
* `Parser.State.Tight`: what a minus can be waiting for

## Main statements

* `Parser.Move.negative_mem`, `Parser.Shift.negative_mem`: where the negations of a tree come from
* `Parser.isNegationOrLiteral_of_parse`: the equality tests that a minus takes
* `Parser.isBare_of_parse`: a minus in front of a number or a name takes nothing else
* `Parser.Reads.minuses`: a row of minuses
* `Parser.parse_minuses`: an equality test is of the negated value exactly after a single minus
-/

namespace Scriptlet

namespace Node

/-- A number or a name. -/
def isBare : Node → Bool
  | number _ | identifier _ => true
  | _ => false

def isNegationOrLiteral : Node → Bool
  | negative _ | literal .. => true
  | _ => false

end Node

namespace Parser

/-- The trees in the branches of a conditional. -/
def linkTrees (links : List (Node × List Node)) : List Node :=
  links.flatMap fun link => link.1.subtrees ++ Node.subtreesAll link.2

def Head.trees (head : Head) : List Node := head.test.subtrees ++ linkTrees head.earlier

def Pending.trees : Pending → List Node
  | .operand left _ | .comparand left => left.subtrees
  | .negation | .group | .value _ => []
  | .test head => head.trees
  | .statement head body => head.trees ++ Node.subtreesAll body

def Control.trees : Control → List Node
  | .top | .start _ | .negated _ | .named .. | .loop _ => []
  | .block _ head body => head.trees ++ Node.subtreesAll body
  | .atom _ node | .complete _ node => node.subtrees
  | .opening _ head => head.trees
  | .branches _ _ _ links => linkTrees links

/-- All trees that were read, also within others. -/
def State.trees (s : State) : List Node :=
  s.control.trees ++ s.frames.flatMap (·.pending.trees) ++ Node.subtreesAll s.done

variable {bound : Nat} {t : Token} {ts : List Token} {s u : State} {x : Node}

/-! ## Where negations come from -/

theorem subtrees_ofLinks (links : List (Node × List Node)) :
    (Chain.ofLinks links).subtrees = linkTrees links := by
  induction links with
  | nil => rfl
  | cons link links ih => simp [Chain.ofLinks, linkTrees, ih]

theorem mem_subtrees_chainNode {first : Owner} {links : List (Node × List Node)} {n : Node}
    (h : n ∈ (chainNode first links).subtrees) : n = chainNode first links ∨ n ∈ linkTrees links := by
  cases links with
  | nil => exact .inl (by simpa [chainNode] using h)
  | cons link links =>
    rw [chainNode] at h ⊢
    by_cases hf : first = .ifWord <;> simpa [hf, subtrees_ofLinks, linkTrees] using h

theorem negative_mem_chainNode {first : Owner} {links : List (Node × List Node)}
    (h : .negative x ∈ (chainNode first links).subtrees) : .negative x ∈ linkTrees links := by
  refine (mem_subtrees_chainNode h).resolve_left fun he => ?_
  cases links with
  | nil => cases he
  | cons link links =>
    rw [chainNode] at he
    split at he <;> cases he

/-- The only move that makes a negation takes what a minus was waiting for. -/
theorem Move.negative_mem (h : Move t s u) (hx : .negative x ∈ u.trees) :
    .negative x ∈ s.trees ∨
      ∃ floor outer frames done, s = ⟨.complete floor x, ⟨.negation, outer⟩ :: frames, done⟩ := by
  cases h with
  | chain =>
    simp only [State.trees, Control.trees, List.mem_append] at hx ⊢
    rcases hx with (hx | hx) | hx
    · exact .inl (.inl (.inl (negative_mem_chainNode hx)))
    · exact .inl (.inl (.inr hx))
    · exact .inl (.inr hx)
  | @negative floor outer node frames done =>
    simp only [State.trees, Control.trees, Pending.trees, Node.subtrees, List.flatMap_cons,
      List.nil_append, List.mem_append, List.mem_cons] at hx ⊢
    rcases hx with ((hx | hx) | hx) | hx
    · cases hx
      exact .inr ⟨floor, outer, frames, done, rfl⟩
    · exact .inl (.inl (.inl hx))
    · exact .inl (.inl (.inr hx))
    · exact .inl (.inr hx)
  | _ =>
    left
    simp only [State.trees, Control.trees, Pending.trees, Head.trees, Head.starting, linkTrees,
      Node.subtrees, Node.subtreesAll, Node.subtreesAll_append, List.flatMap_cons, List.mem_append,
      List.mem_cons, List.flatMap_nil, List.not_mem_nil, reduceCtorEq, false_or, or_false] at hx ⊢
    tauto

/-- The only shifts that make a negation take a number or a name. -/
theorem Shift.negative_mem (h : Shift t s u) (hx : .negative x ∈ u.trees) :
    .negative x ∈ s.trees ∨ x.isBare := by
  cases h with
  | negatedNumber | negatedIdentifier =>
    simp only [State.trees, Control.trees, Node.subtrees, List.mem_append, List.mem_cons,
      List.not_mem_nil, or_false, reduceCtorEq] at hx
    rcases hx with (hx | hx) | hx
    · cases hx
      exact .inr rfl
    · exact .inl (by simp [State.trees, hx])
    · exact .inl (by simp [State.trees, hx])
  | _ =>
    left
    simp only [State.trees, Control.trees, Pending.trees, Head.trees, Head.starting, linkTrees,
      Node.subtrees, Node.subtreesAll, List.flatMap_append, List.flatMap_cons, List.mem_append,
      List.mem_cons, List.flatMap_nil, List.not_mem_nil, reduceCtorEq, false_or, or_false] at hx ⊢
    tauto

/-! ## The equality tests that a minus takes -/

/-- The innermost open construct is a minus. -/
def AfterMinus : List Frame → Prop
  | ⟨.negation, _⟩ :: _ => True
  | _ => False

/-- No parenthesis is open, and an equality test after a minus begins with a negation or a literal. -/
def TightStack : List Frame → Prop
  | [] => True
  | ⟨.group, _⟩ :: _ => False
  | ⟨.comparand left, _⟩ :: frames =>
    (AfterMinus frames → left.isNegationOrLiteral) ∧ TightStack frames
  | _ :: frames => TightStack frames

/-- What can stand right after a minus that waits. A number or a name cannot. -/
def Control.Tight (next : Token) (frames : List Frame) : Control → Prop
  | .top | .named .. => ¬ AfterMinus frames
  | .start _ => AfterMinus frames → next.kind ≠ .number ∧ next.kind ≠ .identifier
  | .atom _ node => AfterMinus frames → node.isNegationOrLiteral
  | .complete _ node =>
    AfterMinus frames → ∀ left right, node = .condition left right → left.isNegationOrLiteral
  | _ => True

structure State.Tight (next : Token) (s : State) : Prop where
  control : s.control.Tight next s.frames
  stack : TightStack s.frames
  trees : ∀ left right, .negative (.condition left right) ∈ s.trees → left.isNegationOrLiteral

theorem Move.tight (h : Move t s u) (hs : s.Tight t) : u.Tight t := by
  obtain ⟨hc, hf, ht⟩ := hs
  have htrees : ∀ left right, .negative (.condition left right) ∈ u.trees →
      left.isNegationOrLiteral := by
    intro left right hx
    obtain hx | ⟨floor, outer, frames, done, rfl⟩ := h.negative_mem hx
    · exact ht left right hx
    · exact hc trivial left right rfl
  refine ⟨?_, ?_, htrees⟩
  · cases h with
    | name => exact fun ha => absurd ha hc
    | atom =>
      rintro ha left right rfl
      cases hc ha
    | @chain floor first last links =>
      intro _ left right heq
      have hlevel := (level_chainNode first links).2
      rw [heq] at hlevel
      cases hlevel
    | binary | assignment => exact fun _ _ _ => nofun
    | negative => exact fun _ => rfl
    | condition =>
      rintro ha left right heq
      cases heq
      exact hf.1 ha
    | last => exact id
    | fresh => exact fun ha => absurd ha hc
    | inside | loopTest => exact nofun
    | operand hn hi => exact fun _ => ⟨hn, hi⟩
    | test | statement | loopBody => trivial
  · cases h with
    | condition => exact hf.2
    | last => trivial
    | _ => exact hf

theorem Shift.tight (h : Shift t s u) (hp : t.kind ≠ .leftParen) (hs : s.Tight t) (next : Token) :
    u.Tight next := by
  obtain ⟨hc, hf, ht⟩ := hs
  have htrees : ∀ left right, .negative (.condition left right) ∈ u.trees →
      left.isNegationOrLiteral := by
    intro left right hx
    obtain hx | hx := h.negative_mem hx
    · exact ht left right hx
    · cases hx
  refine ⟨?_, ?_, htrees⟩
  · cases h with
    | number hk => exact fun ha => absurd hk (hc ha).1
    | identifier hk => exact fun ha => absurd hk (hc ha).2
    | literal | negatedNumber | negatedIdentifier => exact fun _ => rfl
    | leftParen hk => exact absurd hk hp
    | tested | assign | equals | operator | elifBranch => exact nofun
    | rightParen => exact absurd hf id
    | loopEnd => exact fun _ _ _ => nofun
    | finish => exact hc
    | _ => trivial
  · cases h with
    | leftParen hk => exact absurd hk hp
    | rightParen => exact absurd hf id
    | equals => exact ⟨hc, hf⟩
    | _ => exact hf

theorem isNegationOrLiteral_of_parse {text : String} {nodes : List Node}
    (ht : ∀ t ∈ (Tokens.ofText text).toList, t.kind ≠ .leftParen)
    (h : parse bound text = .ok nodes) {n left right : Node} (hn : n ∈ nodes)
    (hx : .negative (.condition left right) ∈ n.subtrees) : left.isNegationOrLiteral := by
  have hc : ∀ t ∈ (Tokens.plain text.toList).toList, t.kind ≠ .leftParen := by
    intro t hm
    rw [Tokens.toList_plain] at hm
    obtain ⟨t', hm', rfl⟩ := List.mem_map.mp hm
    exact ht t' (List.mem_filter.mp hm').1
  obtain ⟨_, frames, hs⟩ := parse_induction (P := fun _ next s => s.Tight next) h hc
    (fun _ => ⟨id, trivial, nofun⟩) (fun hm hs => hm.tight hs) (fun ht hu hs => hu.tight ht hs)
  refine hs.trees left right ?_
  simp only [State.trees, List.mem_append, Node.mem_subtreesAll]
  exact .inr ⟨n, hn, hx⟩

/-! ## A minus in front of a number or a name -/

/-- A minus stands right in front of a number or a name. -/
def SignsOnly (a b : Token) : Prop := a.kind = .subtract → b.kind = .number ∨ b.kind = .identifier

/-- No minus waits, and all that were read took a number or a name. -/
structure State.Bare (s : State) : Prop where
  frames : ∀ frame ∈ s.frames, frame.pending ≠ .negation
  trees : ∀ x, .negative x ∈ s.trees → x.isBare

theorem Move.bare_kept (h : Move t s u) (hs : s.Bare)
    (hn : ∀ floor, s.control = .negated floor → t.kind = .number ∨ t.kind = .identifier) : u.Bare := by
  refine ⟨?_, fun x hx => ?_⟩
  · have hf := hs.frames
    cases h with
    | operand hnumber hidentifier =>
      rcases hn _ rfl with hk | hk
      · exact absurd hk hnumber
      · exact absurd hk hidentifier
    | inside | loopTest => simpa using hf
    | last => nofun
    | binary | negative | assignment | condition | test | statement =>
      exact fun frame hm => hf frame (List.mem_cons_of_mem _ hm)
    | _ => exact hf
  · obtain hx | ⟨floor, outer, frames, done, rfl⟩ := h.negative_mem hx
    · exact hs.trees x hx
    · exact absurd rfl (hs.frames _ List.mem_cons_self)

theorem Shift.bare_kept (h : Shift t s u) (hs : s.Bare) : u.Bare := by
  refine ⟨?_, fun x hx => ?_⟩
  · have hf := hs.frames
    cases h with
    | leftParen | tested | assign | equals | operator | elifBranch => simpa using hf
    | rightParen => exact fun frame hm => hf frame (List.mem_cons_of_mem _ hm)
    | _ => exact hf
  · obtain hx | hx := h.negative_mem hx
    · exact hs.trees x hx
    · exact hx

theorem Moves.bare_kept (h : Moves t s u) (hs : s.Bare)
    (hn : ∀ floor, s.control = .negated floor → t.kind = .number ∨ t.kind = .identifier) : u.Bare := by
  refine (h.induction (P := fun s => s.Bare ∧ ∀ floor, s.control = .negated floor →
    t.kind = .number ∨ t.kind = .identifier) (fun hm hs => ⟨hm.bare_kept hs.1 hs.2, ?_⟩) ⟨hs, hn⟩).1
  cases hm <;> nofun

/-- The induction is on the tokens; a minus that was just read looks one token ahead. -/
theorem bare_of_feedAll (h : feedAll bound s ts = .ok u) (hc : ts.IsChain SignsOnly) (hs : s.Bare)
    (hn : ∀ floor, s.control = .negated floor →
      ∀ t ∈ ts.head?, t.kind = .number ∨ t.kind = .identifier) : u.Bare := by
  induction ts generalizing s with
  | nil =>
    cases h
    exact hs
  | cons t ts ih =>
    obtain ⟨v, hf, hrest⟩ := exists_feed_of_feedAll_cons h
    obtain ⟨w, hm, hshift⟩ := exists_shift_of_feed hf
    obtain ⟨hnext, htail⟩ := List.isChain_cons.mp hc
    have hw : w.Bare := Moves.bare_kept hm hs fun floor hfloor => hn floor hfloor t rfl
    refine ih hrest htail (hshift.bare_kept hw) fun floor hfloor t' ht' => hnext t' ht' ?_
    cases hshift with
    | minus hk => exact hk
    | _ => cases hfloor

/-- The end does not complete a minus. -/
theorem ne_negated_of_moves_top {line : Nat} {frames : List Frame} {done : List Node}
    (h : Moves (Token.endOfInput line) s ⟨.top, frames, done⟩) (floor : Precedence) :
    s.control ≠ .negated floor := by
  intro hc
  obtain rfl | ⟨v, hm, hrest⟩ := Relation.ReflTransGen.cases_head h
  · cases hc
  · cases hm with
    | operand => cases not_moves_of_start rfl hrest
    | _ => cases hc

theorem isBare_of_parse {text : String} {nodes : List Node}
    (hc : (Tokens.plain text.toList).toList.IsChain SignsOnly) (h : parse bound text = .ok nodes)
    {n : Node} (hn : n ∈ nodes) (hx : .negative x ∈ n.subtrees) : x.isBare := by
  obtain ⟨-, u, line, frames, hu, hm⟩ := exists_feedAll_of_run (parse_eq_ok_iff.mp h)
  have hbare : u.Bare := bare_of_feedAll hu hc ⟨nofun, nofun⟩ nofun
  have htop : State.Bare ⟨.top, frames, nodes⟩ :=
    Moves.bare_kept hm hbare fun floor hfloor => absurd hfloor (ne_negated_of_moves_top hm floor)
  refine htop.trees x ?_
  simp only [State.trees, List.mem_append, Node.mem_subtreesAll]
  exact .inr ⟨n, hn, hx⟩

/-! ## A row of minuses -/

/-- The tokens of some minuses, a tree, an equality sign and what follows it. -/
def minusesTokens (k : Nat) (a : Node) (ts : List Token) : List Token :=
  List.replicate k { kind := .subtract } ++ (a.flatten ++ { kind := .equals } :: ts)

/-- In front of anything but a number or a name, each minus takes all that follows. -/
theorem Reads.minuses {level : Precedence} {node : Node} (h : ∀ floor, Reads floor (t :: ts) level node)
    (hn : t.kind ≠ .number) (hi : t.kind ≠ .identifier) (k : Nat) (floor : Precedence) :
    Reads floor (List.replicate k { kind := .subtract } ++ t :: ts) level (Node.negative^[k] node) := by
  induction k generalizing floor with
  | zero => exact h floor
  | succ k ih =>
    rw [Function.iterate_succ_apply', List.replicate_succ, List.cons_append]
    cases k with
    | zero => exact (ih _).negative hn hi
    | succ k => exact (ih _).negative (by simp) (by simp)

/-- The first minus is part of the left side of the test, and each further one takes the test. -/
theorem reads_minuses_bare {level : Precedence} {a n : Node} (ha : a.isBare)
    (hn : Reads .default ts level n) (k : Nat) :
    Reads .default (minusesTokens (k + 1) a ts) .default
      (Node.negative^[k] (.condition (.negative a) n)) := by
  have htest (floor : Precedence) : Reads floor
      ({ kind := .subtract } :: (a.flatten ++ { kind := .equals } :: ts)) .default
      (.condition (.negative a) n) := by
    cases a with
    | number value => exact Reads.condition (readsAtom_negative_number value) hn
    | identifier name => exact Reads.condition (readsAtom_negative_identifier name) hn
    | _ => cases ha
  rw [minusesTokens, List.replicate_succ', List.append_assoc]
  exact Reads.minuses htest (by simp) (by simp) k .default

/-- In front of a literal, every minus takes the test. -/
theorem reads_minuses_literal {level : Precedence} {word : String} {key : Keyword} {n : Node}
    (hk : ∀ owner : Owner, key ≠ owner.keyword) (hn : Reads .default ts level n) (k : Nat) :
    Reads .default (minusesTokens k (.literal word key) ts) .default
      (Node.negative^[k] (.condition (.literal word key) n)) := by
  have hatom (floor : Precedence) :
      ReadsAtom floor [{ kind := .literal, text := word, keyword := key }] (.literal word key) :=
    fun _ _ => ⟨_, feedAll_of_shift (.literal rfl hk), .refl⟩
  exact Reads.minuses (fun floor => Reads.condition (hatom floor) hn) (by simp) (by simp) k .default

/--
A minus takes an equality test only if the test begins with a negation or a literal, and never if each
minus stands right in front of a number or a name. After a row of minuses the test is of the negated
value exactly if there is one minus, and in front of a literal it never is.
-/
theorem parse_minuses (bound : Nat) (text : String) :
    (∀ nodes, parse bound text = .ok nodes → ∀ n ∈ nodes, ∀ left right,
      .negative (.condition left right) ∈ n.subtrees →
        ((∀ t ∈ (Tokens.ofText text).toList, t.kind ≠ .leftParen) → left.isNegationOrLiteral) ∧
        ¬ (Tokens.plain text.toList).toList.IsChain SignsOnly) ∧
    ∀ k a n e, parse 0 e = .ok [n] →
      Tokens.plain text.toList =
        Tokens.ofList (minusesTokens (k + 1) a (Tokens.plain e.toList).toList) →
      (a.isBare → parse 0 text = .ok [Node.negative^[k] (.condition (.negative a) n)] ∧
        (parse 0 text = .ok [.condition (Node.negative^[k + 1] a) n] ↔ k = 0)) ∧
      ∀ word key, a = .literal word key → (∀ owner : Owner, key ≠ owner.keyword) →
        parse 0 text = .ok [Node.negative^[k + 1] (.condition a n)] := by
  refine ⟨fun nodes h n hn left right hx => ⟨fun ht => ?_, fun hc => ?_⟩,
    fun k a n e he htext => ⟨fun ha => ?_, ?_⟩⟩
  · exact isNegationOrLiteral_of_parse ht h hn hx
  · cases isBare_of_parse hc h hn hx
  · have hparse := (reads_minuses_bare ha (reads_of_parse he).2 k).parse_eq htext
    refine ⟨hparse, ?_⟩
    rw [hparse]
    cases k with
    | zero => simp
    | succ k => simp [Function.iterate_succ_apply']
  · rintro word key rfl hk
    exact (reads_minuses_literal hk (reads_of_parse he).2 (k + 1)).parse_eq htext

/-- The test `--a == b` is not of the negated value. -/
theorem parse_minuses_two :
    parse 0 "b" = .ok [.identifier "b"] ∧
      parse 0 "--a == b" =
        .ok [.negative (.condition (.negative (.identifier "a")) (.identifier "b"))] ∧
      parse 0 "--a == b" ≠
        .ok [.condition (.negative (.negative (.identifier "a"))) (.identifier "b")] := by
  have he : parse 0 "b" = .ok [.identifier "b"] := by cbv
  have htext : Tokens.plain "--a == b".toList = Tokens.ofList
      (minusesTokens 2 (.identifier "a") (Tokens.plain "b".toList).toList) := by
    cbv
  obtain ⟨hparse, hiff⟩ := ((parse_minuses 0 "--a == b").2 1 _ _ _ he htext).1 rfl
  exact ⟨he, hparse, fun h => absurd (hiff.mp h) (by decide)⟩

end Parser

end Scriptlet
