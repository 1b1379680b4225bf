import Scriptlet.Proofs.Negation
import Scriptlet.Proofs.Parser.Depth

/-!
# How deeply a tree is nested

The bound on nesting is on the expressions that are being read at once, and this number can be read off
the trees. A left operand is read in the same expression as its operator, and so are a number or a name
after a minus and the branches after the first; everything else opens an expression of its own.
Parentheses open one too, but leave no trace in the tree, so with them a tree only bounds the number
from below.

The invariant is the reach of a state: how deep the trees in it are nested, counted from the bottom of
the stack. A step adds nothing to the reach but the expression that it opens, and without parentheses no
step takes anything away.

## Main definitions

* `Node.nest`: how deeply a tree is nested
* `Parser.State.reach`: how deeply the trees of a state are nested, from the bottom of its stack
* `Parser.State.Direct`: no parenthesis is open, and no minus waits for a number or a name

## Main statements

* `Parser.Move.reach_le`, `Parser.Shift.reach_le`: a step adds only what it opens
* `Parser.Move.le_reach`, `Parser.Shift.le_reach`: without parentheses a step takes nothing away
* `Parser.nest_of_parse`: which trees a bound lets pass
-/

namespace Scriptlet

mutual

/--
How deeply a tree is nested. A hole is not nested at all, so a block without a test and without
statements counts as one.
-/
@[simp] def Node.nest : Node → Nat
  | .missing => 0
  | .number _ => 1
  | .negative operand => if operand.isBare then 1 else 1 + operand.nest
  | .literal .. => 1
  | .identifier _ => 1
  | .binary _ left right => max left.nest (1 + right.nest)
  | .assignment _ value => 1 + value.nest
  | .condition left right => max left.nest (1 + right.nest)
  | .ifElse test body rest => max (1 + max test.nest (Node.nestAll body)) rest.nest
  | .elseLink test body rest => max (1 + max test.nest (Node.nestAll body)) rest.nest
  | .whileLoop test body => 1 + max test.nest (Node.nestAll body)
  | .endOfInput _ => 1
termination_by structural n => n

/-- How deeply the deepest of several trees is nested. -/
@[simp] def Node.nestAll : List Node → Nat
  | [] => 0
  | n :: ns => max n.nest (Node.nestAll ns)
termination_by structural ns => ns

/-- The branches after another one are nested like the first one. -/
@[simp] def Chain.nest : Chain → Nat
  | .done => 0
  | .link test body rest => max (1 + max test.nest (Node.nestAll body)) rest.nest
termination_by structural c => c

end

namespace Node

theorem nestAll_append (ns ms : List Node) : nestAll (ns ++ ms) = max (nestAll ns) (nestAll ms) := by
  induction ns with
  | nil => simp
  | cons n ns ih => simp [ih, max_assoc]

theorem nestAll_le_iff {ns : List Node} {k : Nat} : nestAll ns ≤ k ↔ ∀ n ∈ ns, n.nest ≤ k := by
  induction ns with
  | nil => simp
  | cons n ns ih => simp [ih]

theorem nest_negative_le (operand : Node) : (negative operand).nest ≤ 1 + operand.nest := by
  rw [nest]
  split <;> omega

theorem Proper.one_le_nest {n : Node} (h : n.Proper) : 1 ≤ n.nest := by
  cases h with
  | negative => rw [nest]; split <;> omega
  | number | literal | identifier => exact le_rfl
  | _ => simp only [nest]; omega

end Node

theorem Chain.nest_ofLinks_append (links links' : List (Node × List Node)) :
    (ofLinks (links ++ links')).nest = max (ofLinks links).nest (ofLinks links').nest := by
  induction links with
  | nil => simp [ofLinks]
  | cons link links ih => simp [ofLinks, ih, max_assoc]

namespace Parser

/-- How deeply a block that is open is nested, with the branches in front of it. -/
def Head.nest (head : Head) (body : List Node) : Nat :=
  max (Chain.ofLinks head.earlier).nest (1 + max head.test.nest (Node.nestAll body))

@[simp] def Pending.nest : Pending → Nat
  | .operand left _ | .comparand left => left.nest
  | .negation | .group | .value _ => 0
  | .test head => (Chain.ofLinks head.earlier).nest
  | .statement head body => head.nest body

@[simp] def Control.nest : Control → Nat
  | .top => 0
  | .start _ | .negated _ | .named .. | .loop _ => 1
  | .block _ head body => head.nest body
  | .atom _ node | .complete _ node => node.nest
  | .opening _ head => head.nest []
  | .branches _ _ _ links => (Chain.ofLinks links).nest

/-- How deeply the trees that wait on a stack are nested, from its bottom. -/
@[simp] def framesReach : List Frame → Nat
  | [] => 0
  | frame :: frames => max (frames.length + frame.pending.nest) (framesReach frames)

/-- How deeply the trees in a state are nested, from the bottom of its stack. -/
def State.reach (s : State) : Nat :=
  max (Node.nestAll s.done) (max (s.frames.length + s.control.nest) (framesReach s.frames))

variable {bound : Nat} {t : Token} {s u : State} {toks : Tokens} {nodes : List Node}

theorem nest_chainNode (first : Owner) (links : List (Node × List Node)) :
    (chainNode first links).nest = (Chain.ofLinks links).nest := by
  cases links with
  | nil => rfl
  | cons link links =>
    rw [chainNode]
    split <;> rfl

theorem ProperLinks.one_le_nest {first last : Owner} {links : List (Node × List Node)}
    (h : ProperLinks first last links) : 1 ≤ (Chain.ofLinks links).nest := by
  rw [← nest_chainNode first links]
  exact h.proper_chainNode.one_le_nest

/-- The expressions that are being read count, even if nothing of them was read yet. -/
theorem State.Proper.depth_le_reach (h : s.Proper) : s.depth ≤ s.reach := by
  obtain ⟨control, frames, done⟩ := s
  have hc := h.control
  have hone : control ≠ .top → 1 ≤ control.nest := by
    intro htop
    cases control with
    | top => exact absurd rfl htop
    | start | negated | named | loop => exact le_rfl
    | block | opening => simp only [Control.nest, Head.nest]; omega
    | atom | complete => exact Node.Proper.one_le_nest hc
    | branches => exact ProperLinks.one_le_nest hc
  cases control with
  | top => simp only [depth, reach]; omega
  | _ =>
    have hle := hone (by simp)
    simp only [depth, reach]
    omega

/-! ## A step adds only what it opens -/

theorem State.reach_le_iff : s.reach ≤ bound ↔ Node.nestAll s.done ≤ bound ∧
    s.frames.length + s.control.nest ≤ bound ∧ framesReach s.frames ≤ bound := by
  simp [reach]

theorem add_max_le_iff {k m n : Nat} : k + max m n ≤ bound ↔ k + m ≤ bound ∧ k + n ≤ bound := by
  omega

theorem Move.reach_le (h : Move t s u) (hs : s.reach ≤ bound) (hu : u.depth ≤ bound) :
    u.reach ≤ bound := by
  rw [State.reach_le_iff] at hs ⊢
  cases h with
  | chain =>
    simp only [Control.nest, nest_chainNode] at hs ⊢
    exact hs
  | @negative floor outer node =>
    have hle := node.nest_negative_le
    simp only [Control.nest, framesReach, max_le_iff, List.length_cons] at hs ⊢
    omega
  | _ =>
    simp only [State.depth, Control.nest, framesReach, Pending.nest, Head.nest, Head.starting,
      Chain.ofLinks, Chain.nest, Node.nest, Node.nestAll, Node.nestAll_append, add_max_le_iff,
      max_le_iff, List.length_cons, List.length_nil] at hs hu ⊢
    omega

theorem Shift.reach_le (h : Shift t s u) (hs : s.reach ≤ bound) (hu : u.depth ≤ bound) :
    u.reach ≤ bound := by
  rw [State.reach_le_iff] at hs ⊢
  cases h with
  | negatedNumber | negatedIdentifier => exact hs
  | _ =>
    simp only [State.depth, Control.nest, framesReach, Pending.nest, Head.nest, Head.starting,
      Chain.ofLinks, Chain.nest, Chain.nest_ofLinks_append, Node.nest, Node.nestAll, add_max_le_iff,
      max_le_iff, List.length_cons] at hs hu ⊢
    omega

/-! ## Without parentheses a step takes nothing away -/

/--
What can stand right after a minus that waits: anything but a number or a name, which it would have
taken alone.
-/
def Control.Direct (next : Token) (frames : List Frame) : Control → Prop
  | .top | .named .. => ¬ AfterMinus frames
  | .start _ => AfterMinus frames → next.kind ≠ .number ∧ next.kind ≠ .identifier
  | .atom _ node | .complete _ node => AfterMinus frames → node.isBare = false
  | _ => True

/-- No parenthesis is open, and no minus waits for a number or a name. -/
structure State.Direct (next : Token) (s : State) : Prop where
  control : s.control.Direct next s.frames
  frames : ∀ frame ∈ s.frames, frame.pending ≠ .group

theorem isBare_chainNode (first : Owner) (links : List (Node × List Node)) :
    (chainNode first links).isBare = false := by
  unfold chainNode
  split
  · rfl
  · split <;> rfl

theorem Move.direct (h : Move t s u) (hs : s.Direct t) : u.Direct t := by
  obtain ⟨hc, hf⟩ := hs
  refine ⟨?_, ?_⟩
  · cases h with
    | name => exact fun ha => absurd ha hc
    | atom => exact hc
    | chain => exact fun _ => isBare_chainNode ..
    | binary | negative | assignment | condition => exact fun _ => rfl
    | last => exact id
    | fresh => exact fun ha => absurd ha hc
    | inside | loopTest => exact nofun
    | operand hn hi => exact fun _ => ⟨hn, hi⟩
    | test | statement | loopBody => trivial
  · cases h with
    | binary | negative | assignment | condition | test | statement =>
      exact fun frame hm => hf frame (List.mem_cons_of_mem _ hm)
    | last => nofun
    | inside | operand | loopTest => simpa using hf
    | _ => exact hf

theorem Shift.direct (h : Shift t s u) (hp : t.kind ≠ .leftParen) (hs : s.Direct t) (next : Token) :
    u.Direct next := by
  obtain ⟨hc, hf⟩ := hs
  refine ⟨?_, ?_⟩
  · cases h with
    | number hk => exact fun ha => absurd hk (hc ha).1
    | identifier hk => exact fun ha => absurd hk (hc ha).2
    | literal | negatedNumber | negatedIdentifier | loopEnd => exact fun _ => rfl
    | leftParen hk => exact absurd hk hp
    | tested | assign | equals | operator | elifBranch => exact nofun
    | rightParen => exact absurd rfl (hf _ List.mem_cons_self)
    | finish => exact hc
    | _ => trivial
  · cases h with
    | leftParen hk => exact absurd hk hp
    | rightParen => exact fun frame hm => hf frame (List.mem_cons_of_mem _ hm)
    | tested | assign | equals | operator | elifBranch => simpa using hf
    | _ => exact hf

theorem Move.le_reach (h : Move t s u) (hs : s.Direct t) : s.reach ≤ u.reach := by
  refine le_of_forall_ge fun k hu => ?_
  rw [State.reach_le_iff] at hu ⊢
  cases h with
  | chain =>
    simp only [Control.nest, nest_chainNode] at hu ⊢
    exact hu
  | negative =>
    have hbare := hs.control trivial
    simp only [Control.nest, framesReach, Pending.nest, Node.nest, hbare, max_le_iff, List.length_cons,
      Bool.false_eq_true, if_false] at hu ⊢
    omega
  | _ =>
    simp only [Control.nest, framesReach, Pending.nest, Head.nest, Head.starting, Chain.ofLinks,
      Chain.nest, Node.nest, Node.nestAll, Node.nestAll_append, add_max_le_iff, max_le_iff,
      List.length_cons, List.length_nil] at hu ⊢
    omega

theorem Shift.le_reach (h : Shift t s u) (hp : s.Proper) (hs : s.Direct t) : s.reach ≤ u.reach := by
  refine le_of_forall_ge fun k hu => ?_
  rw [State.reach_le_iff] at hu ⊢
  cases h with
  | negatedNumber | negatedIdentifier => exact hu
  | rightParen => exact absurd rfl (hs.frames _ List.mem_cons_self)
  | loopEnd hk ho =>
    have hearlier := hp.control.1.earlier_of_while ho
    simp only [Control.nest, Head.nest, hearlier, Chain.ofLinks, Chain.nest, Node.nest,
      add_max_le_iff] at hu ⊢
    omega
  | _ =>
    simp only [Control.nest, framesReach, Pending.nest, Head.nest, Head.starting, Chain.ofLinks,
      Chain.nest, Chain.nest_ofLinks_append, Node.nest, Node.nestAll, add_max_le_iff, max_le_iff,
      List.length_cons] at hu ⊢
    omega

/-! ## Whole texts -/

theorem Moves.reach_le (h : Moves t s u) (hv : ∀ v, Moves t s v → v.depth ≤ bound)
    (hs : s.reach ≤ bound) : u.reach ≤ bound := by
  induction h with
  | refl => exact hs
  | tail hm hmove ih =>
    exact hmove.reach_le ih (hv _ (hm.tail hmove))

/-- Where no more than `bound` expressions are read at once, no tree is nested deeper. -/
theorem nestAll_le_of_run (h : run 0 s toks = .ok nodes)
    (hv : ∀ u, Visits 0 s toks u → u.depth ≤ bound) (hs : s.reach ≤ bound) :
    Node.nestAll nodes ≤ bound := by
  induction toks generalizing s with
  | failed e => cases h
  | done line =>
    simp only [run] at h
    split at h
    · cases h
    · rename_i u hu
      cases h
      have hm := (moves_top_of_feed hu).1
      have hreach := Moves.reach_le hm (fun v hmoves => hv v (.here rfl hmoves)) hs
      exact (le_max_left _ _).trans hreach
  | cons t rest ih =>
    simp only [run] at h
    split at h
    · cases h
    · rename_i u hu
      obtain ⟨v, hm, hshift⟩ := exists_shift_of_feed hu
      have hreach := Moves.reach_le hm (fun w hmoves => hv w (.here rfl hmoves)) hs
      refine ih h (fun w hw => hv w (.later hu hw)) (hshift.reach_le hreach ?_)
      -- The state after a token is visited, since a token or the end follows.
      obtain ⟨next, hnext⟩ : ∃ next, rest.first? = some next := by
        cases rest with
        | failed e => cases h
        | done | cons => exact ⟨_, rfl⟩
      exact hv u (.later hu (.here hnext .refl))

theorem Moves.le_reach (h : Moves t s u) (hp : s.Proper) (hs : s.Direct t) :
    u.Proper ∧ u.Direct t ∧ s.reach ≤ u.reach := by
  refine h.induction (P := fun u => u.Proper ∧ u.Direct t ∧ s.reach ≤ u.reach) ?_ ⟨hp, hs, le_rfl⟩
  rintro v u hm ⟨hpv, hdv, hle⟩
  exact ⟨hm.proper hpv, hm.direct hdv, hle.trans (hm.le_reach hdv)⟩

/-- Without parentheses all that was nested is nested in the end. -/
theorem reach_le_nestAll (h : run 0 s toks = .ok nodes)
    (ht : ∀ t ∈ toks.toList, Token.Scanned t ∧ t.kind ≠ .leftParen) (hp : s.Proper)
    (hs : ∀ t ∈ toks.first?, s.Direct t) : s.reach ≤ Node.nestAll nodes := by
  induction toks generalizing s with
  | failed e => cases h
  | done line =>
    simp only [run] at h
    split at h
    · cases h
    · rename_i u hu
      cases h
      obtain ⟨hm, htop⟩ := moves_top_of_feed hu
      obtain ⟨hpu, -, hle⟩ := Moves.le_reach hm hp (hs _ rfl)
      have hframes := hpu.top htop
      simpa [State.reach, htop, hframes] using hle
  | cons t rest ih =>
    simp only [run] at h
    split at h
    · cases h
    · rename_i u hu
      obtain ⟨⟨hscan, hparen⟩, htail⟩ := List.forall_mem_cons.mp ht
      obtain ⟨v, hm, hshift⟩ := exists_shift_of_feed hu
      obtain ⟨hpv, hdv, hle⟩ := Moves.le_reach hm hp (hs t rfl)
      have hrest := ih h htail (hshift.proper hscan hpv) fun next _ => hshift.direct hparen hdv next
      exact hle.trans ((hshift.le_reach hpv hdv).trans hrest)

/-- Without parentheses the trees are nested as deeply as expressions were read at once. -/
theorem Visits.depth_le_nestAll (hv : Visits 0 s toks u) (h : run 0 s toks = .ok nodes)
    (ht : ∀ t ∈ toks.toList, Token.Scanned t ∧ t.kind ≠ .leftParen) (hp : s.Proper)
    (hs : ∀ t ∈ toks.first?, s.Direct t) : u.depth ≤ Node.nestAll nodes := by
  induction hv with
  | @here s u toks t hfirst hm =>
    obtain ⟨hpu, hdu, -⟩ := Moves.le_reach hm hp (hs t hfirst)
    have hmoves : ∀ t' ∈ toks.first?, Moves t' s u := by
      intro t' ht'
      cases hfirst.symm.trans ht'
      exact hm
    have hdirect : ∀ t' ∈ toks.first?, u.Direct t' := by
      intro t' ht'
      cases hfirst.symm.trans ht'
      exact hdu
    rw [run_eq_of_moves hmoves] at h
    exact hpu.depth_le_reach.trans (reach_le_nestAll h ht hpu hdirect)
  | @later s s' u t rest hf hv ih =>
    obtain ⟨⟨hscan, hparen⟩, htail⟩ := List.forall_mem_cons.mp ht
    obtain ⟨v, hm, hshift⟩ := exists_shift_of_feed hf
    obtain ⟨hpv, hdv, -⟩ := Moves.le_reach hm hp (hs t rfl)
    refine ih (by simpa [run, hf] using h) htail (hshift.proper hscan hpv) fun next _ => ?_
    exact hshift.direct hparen hdv next

/-- A bound that lets a text pass is not exceeded on the way through it. -/
theorem depth_le_of_run (h : run bound s toks = .ok nodes) (hb : 0 < bound) (hs : s.begun ≤ bound)
    (hv : Visits 0 s toks u) : u.depth ≤ bound := by
  by_contra hlt
  obtain ⟨t, ht⟩ := hv.run_eq_error hb hs (Nat.not_le.mp hlt)
  simp [h] at ht

/--
A bound lets only trees pass that are nested no deeper. Without parentheses that is all it asks for: a
text passes if and only if it passes without a bound and none of its trees is nested deeper, and the
trees are the same.
-/
theorem nest_of_parse (text : String) {bound : Nat} (hb : 0 < bound) :
    (∀ nodes, parse bound text = .ok nodes → ∀ n ∈ nodes, n.nest ≤ bound) ∧
      ((∀ t ∈ (Tokens.ofText text).toList, t.kind ≠ .leftParen ∧ t.kind ≠ .rightParen) →
        ∀ nodes, parse bound text = .ok nodes ↔
          parse 0 text = .ok nodes ∧ ∀ n ∈ nodes, n.nest ≤ bound) := by
  have hpass : ∀ nodes, parse bound text = .ok nodes →
      parse 0 text = .ok nodes ∧ ∀ n ∈ nodes, n.nest ≤ bound := by
    intro nodes h
    have hv (u : State) (hu : Visits 0 .initial (Tokens.ofText text).significant u) :
        u.depth ≤ bound := depth_le_of_run h hb (Nat.zero_le bound) hu
    have hzero : parse 0 text = .ok nodes := (run_eq_of_visits hv).symm.trans h
    exact ⟨hzero, Node.nestAll_le_iff.mp (nestAll_le_of_run hzero hv (Nat.zero_le bound))⟩
  refine ⟨fun nodes h => (hpass nodes h).2, fun hparens nodes => ⟨hpass nodes, ?_⟩⟩
  rintro ⟨h, hnest⟩
  have ht : ∀ t ∈ (Tokens.plain text.toList).toList, Token.Scanned t ∧ t.kind ≠ .leftParen := by
    intro t hm
    refine ⟨Tokens.scanned_of_mem_plain hm, ?_⟩
    rw [Tokens.toList_plain] at hm
    obtain ⟨t', hm', rfl⟩ := List.mem_map.mp hm
    exact (hparens t' (List.mem_filter.mp hm').1).1
  rw [parse_eq_ok_iff] at h ⊢
  rw [run_eq_of_visits, h]
  intro u hu
  have hdepth := hu.depth_le_nestAll h ht State.proper_initial fun _ _ => ⟨id, nofun⟩
  exact hdepth.trans (Node.nestAll_le_iff.mpr hnest)

theorem nest_of_parse_branches :
    ∃ n, parse 0 "if -true == a \x7b x = b ^ -c \x7d elif y \x7b \x7d else \x7b \x7d" = .ok [n] ∧
      n.nest = 4 ∧
      parse 4 "if -true == a \x7b x = b ^ -c \x7d elif y \x7b \x7d else \x7b \x7d" = .ok [n] ∧
      ∀ nodes, parse 3 "if -true == a \x7b x = b ^ -c \x7d elif y \x7b \x7d else \x7b \x7d" ≠
        .ok nodes := by
  have hzero : parse 0 "if -true == a \x7b x = b ^ -c \x7d elif y \x7b \x7d else \x7b \x7d" =
      .ok [.ifElse (.negative (.condition (.literal "true" .true) (.identifier "a")))
        [.assignment (some "x") (.binary .power (.identifier "b") (.negative (.identifier "c")))]
        (.link (.identifier "y") [] (.link .missing [] .done))] := by
    cbv
  have hparens : ∀ t ∈ (Tokens.ofText
      "if -true == a \x7b x = b ^ -c \x7d elif y \x7b \x7d else \x7b \x7d").toList,
      t.kind ≠ .leftParen ∧ t.kind ≠ .rightParen := by
    have hall : ((Tokens.ofText
        "if -true == a \x7b x = b ^ -c \x7d elif y \x7b \x7d else \x7b \x7d").toList.all fun t =>
        t.kind ≠ .leftParen ∧ t.kind ≠ .rightParen) = true := by cbv
    simpa using hall
  refine ⟨_, hzero, rfl, ?_, fun nodes h => ?_⟩
  · exact ((nest_of_parse _ (by decide)).2 hparens _).mpr ⟨hzero, by simp [Node.isBare]⟩
  · obtain ⟨hnodes, hnest⟩ := ((nest_of_parse _ (by decide)).2 hparens nodes).mp h
    cases hzero.symm.trans hnodes
    simp [Node.isBare] at hnest

end Parser

end Scriptlet
