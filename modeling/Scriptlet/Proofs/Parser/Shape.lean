import Scriptlet.Proofs.Scanning

/-!
# The trees that the parser builds

A tree can be written down with holes and with parts that no text stands for. The parser builds none
of these: every operand is there, every name and literal is that of a scanned token, every operator
is an arithmetic one, and only an `else` and a bare `while` have no test.

## Main definitions

* `Node.Proper`, `Chain.Proper`: trees without holes
* `Parser.State.Proper`: states in which everything read so far is without holes

## Main statements

* `Parser.Move.proper`, `Parser.Shift.proper`: one step keeps the state proper
* `Parser.proper_of_parse`: every tree that the parser returns is proper
-/

namespace Scriptlet

mutual

/-- A tree in which only the test of an `else` or of a loop is missing. -/
inductive Node.Proper : Node → Prop where
  | number (value : Float) : Node.Proper (.number value)
  | negative {operand} (h : Node.Proper operand) : Node.Proper (.negative operand)
  | literal {text keyword} (h : Token.Scanned { kind := .literal, text, keyword })
      (ho : ∀ owner : Owner, keyword ≠ owner.keyword) : Node.Proper (.literal text keyword)
  | identifier {name} (h : Token.Scanned { kind := .identifier, text := name }) :
      Node.Proper (.identifier name)
  | binary {op left right} (ho : op.isArithmetic) (hl : Node.Proper left)
      (hr : Node.Proper right) : Node.Proper (.binary op left right)
  | assignment {target value} (ht : Token.Scanned { kind := .identifier, text := target })
      (hv : Node.Proper value) : Node.Proper (.assignment (some target) value)
  | condition {left right} (hl : Node.Proper left) (hr : Node.Proper right) :
      Node.Proper (.condition left right)
  | ifElse {test body rest} (ht : Node.Proper test) (hb : ∀ n ∈ body, Node.Proper n)
      (hr : Chain.Proper rest) : Node.Proper (.ifElse test body rest)
  | elifLink {test body rest} (ht : Node.Proper test) (hb : ∀ n ∈ body, Node.Proper n)
      (hr : Chain.Proper rest) : Node.Proper (.elseLink test body rest)
  | elseLink {body} (hb : ∀ n ∈ body, Node.Proper n) : Node.Proper (.elseLink .missing body .done)
  | whileLoop {test body} (ht : Node.Proper test) (hb : ∀ n ∈ body, Node.Proper n) :
      Node.Proper (.whileLoop test body)
  | loop {body} (hb : ∀ n ∈ body, Node.Proper n) : Node.Proper (.whileLoop .missing body)

/-- Tested branches, and after them at most one without a test. -/
inductive Chain.Proper : Chain → Prop where
  | done : Chain.Proper .done
  | elifLink {test body rest} (ht : Node.Proper test) (hb : ∀ n ∈ body, Node.Proper n)
      (hr : Chain.Proper rest) : Chain.Proper (.link test body rest)
  | elseLink {body} (hb : ∀ n ∈ body, Node.Proper n) : Chain.Proper (.link .missing body .done)

end

theorem Node.Proper.ne_missing {n : Node} (h : n.Proper) : n ≠ .missing := by
  rintro rfl
  cases h

/-- A test that the word of a block can have. -/
inductive Owner.Tests : Owner → Node → Prop where
  | ifWord {test : Node} (h : test.Proper) : Tests .ifWord test
  | elifWord {test : Node} (h : test.Proper) : Tests .elifWord test
  | elseWord : Tests .elseWord .missing
  | whileWord {test : Node} (h : test.Proper) : Tests .whileWord test
  | loop : Tests .whileWord .missing

theorem Owner.tests_of_proper {owner : Owner} {test : Node} (h : test.Proper)
    (ho : owner ≠ .elseWord) : owner.Tests test := by
  cases owner with
  | ifWord => exact .ifWord h
  | elifWord => exact .elifWord h
  | elseWord => exact absurd rfl ho
  | whileWord => exact .whileWord h

namespace Parser

/-- The branch of `owner` either starts its chain or follows tested branches. -/
inductive Chained (first : Owner) : List (Node × List Node) → Owner → Prop where
  | first : Chained first [] first
  | later {earlier owner} (he : earlier ≠ []) (hf : first = .ifWord ∨ first = .elifWord)
      (ho : owner = .elifWord ∨ owner = .elseWord)
      (hl : ∀ link ∈ earlier, link.1.Proper ∧ ∀ n ∈ link.2, n.Proper) : Chained first earlier owner

/-- A head whose test is still to be read. -/
structure Head.Awaiting (head : Head) : Prop where
  chained : Chained head.first head.earlier head.owner
  notElse : head.owner ≠ .elseWord

/-- A head with its test. -/
structure Head.Proper (head : Head) : Prop where
  chained : Chained head.first head.earlier head.owner
  tests : head.owner.Tests head.test

/-- The branches of a conditional, the last of which belongs to `last`. -/
structure ProperLinks (first last : Owner) (links : List (Node × List Node)) : Prop where
  exists_eq : ∃ earlier test body, links = earlier ++ [(test, body)] ∧
    Chained first earlier last ∧ last.Tests test ∧ ∀ n ∈ body, n.Proper
  notWhile : last ≠ .whileWord

def Pending.Proper : Pending → Prop
  | .operand left op => left.Proper ∧ op.isArithmetic
  | .negation | .group => True
  | .value target => Token.Scanned { kind := .identifier, text := target }
  | .comparand left => left.Proper
  | .test head => head.Awaiting
  | .statement head body => head.Proper ∧ ∀ n ∈ body, n.Proper

def Control.Proper : Control → Prop
  | .top | .start _ | .negated _ | .loop _ => True
  | .block _ head body => head.Proper ∧ ∀ n ∈ body, n.Proper
  | .named _ name => Token.Scanned { kind := .identifier, text := name }
  | .atom _ node | .complete _ node => node.Proper
  | .opening _ head => head.Proper
  | .branches _ first last links => ProperLinks first last links

/-- Everything that was read is proper, and nothing is open between the statements of the text. -/
structure State.Proper (s : State) : Prop where
  control : s.control.Proper
  frames : ∀ frame ∈ s.frames, frame.pending.Proper
  done : ∀ n ∈ s.done, n.Proper
  top : s.control = .top → s.frames = []

variable {t : Token} {s u : State} {first last : Owner} {links : List (Node × List Node)}
  {body : List Node}

theorem proper_concat {node : Node} (hb : ∀ n ∈ body, n.Proper) (hn : node.Proper) :
    ∀ n ∈ body ++ [node], n.Proper := by
  intro n h
  rcases List.mem_append.mp h with h | h
  · exact hb n h
  · rwa [List.mem_singleton.mp h]

/-- The induction is on the tested branches in front of the last one. -/
theorem proper_ofLinks {owner : Owner} {test : Node} (ho : owner = .elifWord ∨ owner = .elseWord)
    (hl : ∀ link ∈ links, link.1.Proper ∧ ∀ n ∈ link.2, n.Proper) (ht : owner.Tests test)
    (hb : ∀ n ∈ body, n.Proper) : (Chain.ofLinks (links ++ [(test, body)])).Proper := by
  induction links with
  | nil =>
    rcases ho with rfl | rfl
    · cases ht with
      | elifWord h => exact .elifLink h hb .done
    · cases ht
      exact .elseLink hb
  | cons link links ih =>
    obtain ⟨hp, hbody⟩ := hl link List.mem_cons_self
    exact .elifLink hp hbody (ih fun l h => hl l (List.mem_cons_of_mem _ h))

theorem ProperLinks.proper_chainNode (h : ProperLinks first last links) :
    (chainNode first links).Proper := by
  obtain ⟨⟨earlier, test, body, rfl, hc, ht, hb⟩, hw⟩ := h
  cases hc with
  | first =>
    cases ht with
    | ifWord ht => exact .ifElse ht hb .done
    | elifWord ht => exact .elifLink ht hb .done
    | elseWord => exact .elseLink hb
    | whileWord | loop => exact absurd rfl hw
  | later he hf ho hl =>
    obtain ⟨link, links, rfl⟩ := List.exists_cons_of_ne_nil he
    obtain ⟨hp, hbody⟩ := hl link List.mem_cons_self
    have hrest := proper_ofLinks ho (fun l h => hl l (List.mem_cons_of_mem _ h)) ht hb
    rcases hf with rfl | rfl
    · exact .ifElse hp hbody hrest
    · exact .elifLink hp hbody hrest

theorem Head.Proper.properLinks {head : Head} (h : head.Proper) (hw : head.owner ≠ .whileWord)
    (hb : ∀ n ∈ body, n.Proper) :
    ProperLinks head.first head.owner (head.earlier ++ [(head.test, body)]) :=
  ⟨⟨_, _, _, rfl, h.chained, h.tests, hb⟩, hw⟩

/-- All branches so far have a test if another one may follow. -/
theorem ProperLinks.chained (h : ProperLinks first last links) (hl : last ≠ .elseWord)
    {owner : Owner} (ho : owner = .elifWord ∨ owner = .elseWord) : Chained first links owner := by
  obtain ⟨⟨earlier, test, body, rfl, hc, ht, hb⟩, hw⟩ := h
  have hp : test.Proper := by
    cases ht with
    | ifWord h | elifWord h | whileWord h => exact h
    | elseWord => exact absurd rfl hl
    | loop => exact absurd rfl hw
  refine .later (by simp) ?_ ho fun link hm => ?_
  · cases hc with
    | first => cases first <;> simp_all
    | later _ hf => exact hf
  · rcases List.mem_append.mp hm with hm | hm
    · cases hc with
      | first => cases hm
      | later _ _ _ hall => exact hall link hm
    · rw [List.mem_singleton.mp hm]
      exact ⟨hp, hb⟩

theorem Head.proper_starting_else : (Head.starting .elseWord).Proper := ⟨.first, .elseWord⟩

theorem Head.proper_starting_while : (Head.starting .whileWord).Proper := ⟨.first, .loop⟩

/-- A loop follows no other branches. -/
theorem Head.Proper.earlier_of_while {head : Head} (h : head.Proper) (ho : head.owner = .whileWord) :
    head.earlier = [] := by
  obtain ⟨owner, test, first, earlier⟩ := head
  obtain ⟨hc, -⟩ := h
  simp only at ho hc
  subst ho
  cases hc with
  | first => rfl
  | later _ _ ho => simp at ho

theorem Move.proper (h : Move t s u) (hs : s.Proper) : u.Proper := by
  obtain ⟨hc, hf, hd, htop⟩ := hs
  cases h with
  | name => exact ⟨.identifier hc, hf, hd, nofun⟩
  | atom => exact ⟨hc, hf, hd, nofun⟩
  | chain => exact ⟨hc.proper_chainNode, hf, hd, nofun⟩
  | binary =>
    obtain ⟨⟨hl, ho⟩, hf⟩ := List.forall_mem_cons.mp hf
    exact ⟨.binary ho hl hc, hf, hd, nofun⟩
  | negative => exact ⟨.negative hc, (List.forall_mem_cons.mp hf).2, hd, nofun⟩
  | assignment =>
    obtain ⟨ht, hf⟩ := List.forall_mem_cons.mp hf
    exact ⟨.assignment ht hc, hf, hd, nofun⟩
  | condition =>
    obtain ⟨hl, hf⟩ := List.forall_mem_cons.mp hf
    exact ⟨.condition hl hc, hf, hd, nofun⟩
  | test =>
    obtain ⟨hh, hf⟩ := List.forall_mem_cons.mp hf
    exact ⟨⟨hh.chained, Owner.tests_of_proper hc hh.notElse⟩, hf, hd, nofun⟩
  | statement =>
    obtain ⟨⟨hh, hb⟩, hf⟩ := List.forall_mem_cons.mp hf
    exact ⟨⟨hh, proper_concat hb hc⟩, hf, hd, nofun⟩
  | last => exact ⟨trivial, hf, proper_concat hd hc, fun _ => rfl⟩
  | fresh => exact ⟨trivial, hf, hd, nofun⟩
  | inside => exact ⟨trivial, List.forall_mem_cons.mpr ⟨hc, hf⟩, hd, nofun⟩
  | operand => exact ⟨trivial, List.forall_mem_cons.mpr ⟨trivial, hf⟩, hd, nofun⟩
  | loopTest =>
    exact ⟨trivial, List.forall_mem_cons.mpr ⟨⟨.first, by simp [Head.starting]⟩, hf⟩, hd, nofun⟩
  | loopBody => exact ⟨Head.proper_starting_while, hf, hd, nofun⟩

theorem Shift.proper (h : Shift t s u) (ht : Token.Scanned t) (hs : s.Proper) : u.Proper := by
  obtain ⟨hc, hf, hd, htop⟩ := hs
  cases h with
  | minus | whileWord => exact ⟨trivial, hf, hd, nofun⟩
  | number => exact ⟨.number _, hf, hd, nofun⟩
  | leftParen => exact ⟨trivial, List.forall_mem_cons.mpr ⟨trivial, hf⟩, hd, nofun⟩
  | identifier hk => exact ⟨ht.eq_identifier hk ▸ ht, hf, hd, nofun⟩
  | tested ho =>
    refine ⟨trivial, List.forall_mem_cons.mpr ⟨⟨.first, ?_⟩, hf⟩, hd, nofun⟩
    rcases ho with rfl | rfl <;> simp [Head.starting]
  | elseWord => exact ⟨Head.proper_starting_else, hf, hd, nofun⟩
  | literal hk ho => exact ⟨.literal (ht.eq_literal hk ▸ ht) ho, hf, hd, nofun⟩
  | negatedNumber => exact ⟨.negative (.number _), hf, hd, nofun⟩
  | negatedIdentifier hk => exact ⟨.negative (.identifier (ht.eq_identifier hk ▸ ht)), hf, hd, nofun⟩
  | assign => exact ⟨trivial, List.forall_mem_cons.mpr ⟨hc, hf⟩, hd, nofun⟩
  | equals => exact ⟨trivial, List.forall_mem_cons.mpr ⟨hc, hf⟩, hd, nofun⟩
  | operator hp =>
    exact ⟨trivial, List.forall_mem_cons.mpr ⟨⟨hc, isArithmetic_of_lt hp⟩, hf⟩, hd, nofun⟩
  | rightParen => exact ⟨hc, (List.forall_mem_cons.mp hf).2, hd, nofun⟩
  | leftBrace => exact ⟨⟨hc, nofun⟩, hf, hd, nofun⟩
  | loopEnd hk ho =>
    obtain ⟨hh, hb⟩ := hc
    refine ⟨?_, hf, hd, nofun⟩
    have htest := hh.tests
    rw [ho] at htest
    generalize Head.test _ = test at htest
    cases htest with
    | whileWord h => exact .whileLoop h hb
    | loop => exact .loop hb
  | branchEnd hk ho => exact ⟨hc.1.properLinks ho hc.2, hf, hd, nofun⟩
  | elifBranch hk hl =>
    exact ⟨trivial, List.forall_mem_cons.mpr ⟨⟨hc.chained hl (.inl rfl), by simp⟩, hf⟩, hd, nofun⟩
  | elseBranch hk hl => exact ⟨⟨hc.chained hl (.inr rfl), .elseWord⟩, hf, hd, nofun⟩
  | finish => exact ⟨trivial, hf, hd, htop⟩

theorem State.proper_initial : State.initial.Proper :=
  ⟨trivial, by simp [State.initial], by simp [State.initial], fun _ => rfl⟩

theorem proper_of_parse {bound : Nat} {text : String} {nodes : List Node}
    (h : parse bound text = .ok nodes) : ∀ n ∈ nodes, n.Proper := by
  obtain ⟨_, frames, hs⟩ := parse_induction (P := fun _ _ s => s.Proper) h
    (fun t => Tokens.scanned_of_mem_plain) (fun _ => State.proper_initial)
    (fun hm hs => hm.proper hs) (fun ht hu hs _ => hu.proper ht hs)
  exact hs.done

end Parser

end Scriptlet
