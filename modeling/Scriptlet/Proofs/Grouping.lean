import Scriptlet.Proofs.Conservation
import Scriptlet.Proofs.Parser.Reading

/-!
# How operators group

Without parentheses, an operator takes on its left what binds at least as tightly as itself and on
its right what binds tighter, so operators of one precedence group to the left, and this holds for
`^` too. For a row of operands and operators there is exactly one such tree, and the parser finds it.

The invariant lives on the stack: the floor of every open expression is the precedence of the
construct below it, and an operand that waits on the stack binds at least as tightly as its operator.

## Main definitions

* `Node.Grouped`: every operator in a tree has operands that it can take
* `Token.Alternates`: operands, each with at most one minus, joined by operators

## Main statements

* `Parser.grouped_of_parse`: without parentheses every tree of a text is grouped
* `Node.Arithmetic.reads`: a grouped tree of operators is read from its tokens
* `Token.Alternates.exists_grouped`: every row of operands and operators has a grouped tree
* `Parser.parse_grouping`: the parser finds the only grouped tree
-/

namespace Scriptlet

mutual

/-- A tree and all the trees in it. -/
@[simp] def Node.subtrees : Node → List Node
  | .missing => [.missing]
  | .number value => [.number value]
  | .negative operand => .negative operand :: operand.subtrees
  | .literal text keyword => [.literal text keyword]
  | .identifier name => [.identifier name]
  | .binary op left right => .binary op left right :: (left.subtrees ++ right.subtrees)
  | .assignment target value => .assignment target value :: value.subtrees
  | .condition left right => .condition left right :: (left.subtrees ++ right.subtrees)
  | .ifElse test body rest =>
    .ifElse test body rest :: (test.subtrees ++ Node.subtreesAll body ++ rest.subtrees)
  | .elseLink test body rest =>
    .elseLink test body rest :: (test.subtrees ++ Node.subtreesAll body ++ rest.subtrees)
  | .whileLoop test body => .whileLoop test body :: (test.subtrees ++ Node.subtreesAll body)
  | .endOfInput text => [.endOfInput text]
termination_by structural n => n

/-- The trees in several trees. -/
@[simp] def Node.subtreesAll : List Node → List Node
  | [] => []
  | n :: ns => n.subtrees ++ Node.subtreesAll ns
termination_by structural ns => ns

/-- The trees in the branches after another one. -/
@[simp] def Chain.subtrees : Chain → List Node
  | .done => []
  | .link test body rest => test.subtrees ++ Node.subtreesAll body ++ rest.subtrees
termination_by structural c => c

end

namespace Node

def isBinary : Node → Bool
  | binary .. => true
  | _ => false

/-- How tightly a tree holds together: an operator can take it on the left if it binds no tighter. -/
def level : Node → Precedence
  | binary op _ _ => op.precedence
  | assignment .. | condition .. => .default
  | _ => .negativeValue

/-- A tree that can stand on the left of an operator. -/
def FitsLeft (op : Token.Kind) : Node → Prop
  | binary inner _ _ => op.precedence.rank ≤ inner.precedence.rank
  | assignment .. | condition .. => False
  | _ => True

/-- A tree that can stand on the right of an operator. -/
def FitsRight (op : Token.Kind) : Node → Prop
  | binary inner _ _ => op.precedence.rank < inner.precedence.rank
  | _ => True

/-- The operands of an operator, and that of a minus, fit. -/
@[simp] def OperandsFit : Node → Prop
  | binary op left right => left.FitsLeft op ∧ right.FitsRight op
  | negative operand => operand.isBinary = false
  | _ => True

/-- All operands in a tree fit. -/
def Grouped (n : Node) : Prop := ∀ m ∈ n.subtrees, m.OperandsFit

theorem mem_subtreesAll {m : Node} {ns : List Node} :
    m ∈ subtreesAll ns ↔ ∃ n ∈ ns, m ∈ n.subtrees := by
  induction ns with
  | nil => simp
  | cons n ns ih => simp [ih]

theorem subtreesAll_append (ns ms : List Node) :
    subtreesAll (ns ++ ms) = subtreesAll ns ++ subtreesAll ms := by
  induction ns with
  | nil => rfl
  | cons n ns ih => simp [ih]

theorem forall_subtreesAll {ns : List Node} :
    (∀ m ∈ subtreesAll ns, m.OperandsFit) ↔ ∀ n ∈ ns, n.Grouped := by
  simp only [mem_subtreesAll, Grouped]
  grind

variable {op : Token.Kind} {left right operand value test : Node} {target : Option String}
  {body : List Node}

@[simp] theorem grouped_missing : missing.Grouped := by simp [Grouped]

@[simp] theorem grouped_number {v : Float} : (number v).Grouped := by
  simp [Grouped]

@[simp] theorem grouped_literal {text : String} {k : Keyword} : (literal text k).Grouped := by
  simp [Grouped]

@[simp] theorem grouped_identifier {name : String} : (identifier name).Grouped := by
  simp [Grouped]

theorem grouped_negative :
    (negative operand).Grouped ↔ operand.isBinary = false ∧ operand.Grouped := by
  simp [Grouped]

theorem grouped_binary : (binary op left right).Grouped ↔
    (left.FitsLeft op ∧ right.FitsRight op) ∧ left.Grouped ∧ right.Grouped := by
  simp [Grouped, or_imp, forall_and]

theorem grouped_assignment : (assignment target value).Grouped ↔ value.Grouped := by
  simp [Grouped]

theorem grouped_condition : (condition left right).Grouped ↔ left.Grouped ∧ right.Grouped := by
  simp [Grouped, or_imp, forall_and]

theorem grouped_whileLoop :
    (whileLoop test body).Grouped ↔ test.Grouped ∧ ∀ n ∈ body, n.Grouped := by
  rw [← forall_subtreesAll]
  simp [Grouped, or_imp, forall_and]

/-- A chain of branches is grouped if all its tests and statements are. -/
theorem forall_subtrees_ofLinks {links : List (Node × List Node)} :
    (∀ m ∈ (Chain.ofLinks links).subtrees, m.OperandsFit) ↔
      ∀ link ∈ links, link.1.Grouped ∧ ∀ n ∈ link.2, n.Grouped := by
  induction links with
  | nil => simp [Chain.ofLinks]
  | cons link links ih =>
    simp only [Chain.ofLinks, Chain.subtrees, List.mem_append, or_imp, forall_and,
      forall_subtreesAll, List.mem_cons, forall_eq]
    simp only [forall_and] at ih
    rw [ih]
    grind [Grouped]

theorem grouped_chainNode {first : Owner} {links : List (Node × List Node)}
    (h : ∀ link ∈ links, link.1.Grouped ∧ ∀ n ∈ link.2, n.Grouped) :
    (Parser.chainNode first links).Grouped := by
  cases links with
  | nil => exact grouped_missing
  | cons link links =>
    have hl := h link List.mem_cons_self
    have hr := forall_subtrees_ofLinks.mpr fun l hl => h l (List.mem_cons_of_mem _ hl)
    have hb := forall_subtreesAll.mpr hl.2
    intro m hm
    simp only [Parser.chainNode] at hm
    split at hm <;> simp only [subtrees, List.mem_cons, List.mem_append] at hm <;>
      rcases hm with rfl | (hm | hm) | hm
    all_goals first | trivial | exact hl.1 m hm | exact hb m hm | exact hr m hm

theorem FitsLeft.not_level_lt (h : left.FitsLeft op) : ¬ left.level < op.precedence := by
  have hn := Token.not_negativeValue_lt { kind := op }
  cases left with
  | binary => exact Nat.not_lt.mpr h
  | assignment | condition => cases h
  | _ => exact hn

theorem fitsLeft_of_not_level_lt (h : ¬ left.level < op.precedence)
    (ho : Precedence.default < op.precedence) : left.FitsLeft op := by
  cases left with
  | binary => exact Nat.not_lt.mp h
  | assignment | condition => exact h ho
  | _ => trivial

theorem fitsRight_iff : right.FitsRight op ↔ (right.isBinary → op.precedence < right.level) := by
  cases right <;> simp [FitsRight, isBinary, level, Precedence.lt_iff_rank_lt]

end Node

namespace Parser

/-- The branches of a conditional are grouped. -/
def GroupedLinks (links : List (Node × List Node)) : Prop :=
  ∀ link ∈ links, link.1.Grouped ∧ ∀ n ∈ link.2, n.Grouped

structure Head.Grouped (head : Head) : Prop where
  test : head.test.Grouped
  earlier : GroupedLinks head.earlier

/-- The floor of the expression that a construct waits for. -/
def Pending.inner : Pending → Precedence
  | .operand _ op => op.precedence
  | .negation => .negativeValue
  | _ => .default

/-- What waits on the stack is grouped, and no parenthesis is open. -/
def Frame.Grouped (frame : Frame) : Prop :=
  match frame.pending with
  | .operand left op => left.Grouped ∧ ¬ left.level < op.precedence ∧ frame.floor < op.precedence
  | .negation | .value _ => True
  | .group => False
  | .comparand left => left.Grouped
  | .test head => head.Grouped
  | .statement head body => head.Grouped ∧ ∀ n ∈ body, n.Grouped

/-- Each floor is that of the construct below, from the innermost one down. -/
def Stacked (floor : Precedence) : List Frame → Prop
  | [] => True
  | frame :: frames => floor = frame.pending.inner ∧ frame.Grouped ∧ Stacked frame.floor frames

/--
The part of a state that expects something is grouped on top of `frames`. An operand is complete only
if its operator binds tighter than the floor and at least as tightly as the next token.
-/
def Control.Grouped (next : Token) (frames : List Frame) : Control → Prop
  | .top => Stacked .default frames
  | .start floor | .negated floor | .named floor _ | .loop floor => Stacked floor frames
  | .block floor head body => Stacked floor frames ∧ head.Grouped ∧ ∀ n ∈ body, n.Grouped
  | .atom floor node =>
    Stacked floor frames ∧ node.Grouped ∧ node.isBinary = false ∧ node.level = .negativeValue
  | .complete floor node =>
    Stacked floor frames ∧ node.Grouped ∧ (node.isBinary → floor < node.level) ∧
      ¬ node.level < next.precedence
  | .opening floor head => Stacked floor frames ∧ head.Grouped
  | .branches floor _ _ links => Stacked floor frames ∧ GroupedLinks links

structure State.Grouped (next : Token) (s : State) : Prop where
  control : s.control.Grouped next s.frames
  done : ∀ n ∈ s.done, n.Grouped

variable {t : Token} {s u : State}

theorem grouped_concat {node : Node} {body : List Node} (hb : ∀ n ∈ body, n.Grouped)
    (hn : node.Grouped) : ∀ n ∈ body ++ [node], n.Grouped := by
  intro n h
  rcases List.mem_append.mp h with h | h
  · exact hb n h
  · rwa [List.mem_singleton.mp h]

theorem level_chainNode (first : Owner) (links : List (Node × List Node)) :
    (chainNode first links).isBinary = false ∧ (chainNode first links).level = .negativeValue := by
  unfold chainNode
  split
  · exact ⟨rfl, rfl⟩
  · split <;> exact ⟨rfl, rfl⟩

theorem Move.grouped (h : Move t s u) (hs : s.Grouped t) : u.Grouped t := by
  obtain ⟨hc, hd⟩ := hs
  cases h with
  | name => exact ⟨⟨hc, Node.grouped_identifier, rfl, rfl⟩, hd⟩
  | atom =>
    obtain ⟨hf, hg, hb, hl⟩ := hc
    exact ⟨⟨hf, hg, by simp [hb], by rw [hl]; exact t.not_negativeValue_lt⟩, hd⟩
  | @chain floor first last links =>
    obtain ⟨hf, hg⟩ := hc
    obtain ⟨hb, hl⟩ := level_chainNode first links
    exact ⟨⟨hf, Node.grouped_chainNode hg, by simp [hb], by rw [hl]; exact t.not_negativeValue_lt⟩, hd⟩
  | binary hp =>
    obtain ⟨⟨rfl, ⟨hleft, hlevel, hfloor⟩, hf⟩, hg, hb, -⟩ := hc
    have ho := Nat.lt_of_le_of_lt (Nat.zero_le _) hfloor
    have hfits := Node.fitsLeft_of_not_level_lt hlevel ho
    have hn := Node.grouped_binary.mpr ⟨⟨hfits, Node.fitsRight_iff.mpr hb⟩, hleft, hg⟩
    exact ⟨⟨hf, hn, fun _ => hfloor, hp⟩, hd⟩
  | @negative floor outer node _ _ hp =>
    obtain ⟨⟨rfl, -, hf⟩, hg, hb, -⟩ := hc
    -- An operator above the minus would have to bind tighter than the minus.
    have hn : node.isBinary = false := by
      cases node with
      | binary op left right => exact absurd (hb rfl) (Token.not_negativeValue_lt { kind := op })
      | _ => rfl
    exact ⟨⟨hf, Node.grouped_negative.mpr ⟨hn, hg⟩, rfl, rfl⟩, hd⟩
  | assignment hp =>
    obtain ⟨⟨rfl, -, hf⟩, hg, -, -⟩ := hc
    exact ⟨⟨hf, Node.grouped_assignment.mpr hg, nofun, hp⟩, hd⟩
  | condition hp =>
    obtain ⟨⟨rfl, hleft, hf⟩, hg, -, -⟩ := hc
    exact ⟨⟨hf, Node.grouped_condition.mpr ⟨hleft, hg⟩, nofun, hp⟩, hd⟩
  | test =>
    obtain ⟨⟨-, hh, hf⟩, hg, -⟩ := hc
    exact ⟨⟨hf, hg, hh.earlier⟩, hd⟩
  | statement =>
    obtain ⟨⟨-, ⟨hh, hb⟩, hf⟩, hg, -⟩ := hc
    exact ⟨⟨hf, hh, grouped_concat hb hg⟩, hd⟩
  | last => exact ⟨trivial, grouped_concat hd hc.2.1⟩
  | fresh => exact ⟨hc, hd⟩
  | inside => exact ⟨⟨rfl, hc.2, hc.1⟩, hd⟩
  | operand => exact ⟨⟨rfl, trivial, hc⟩, hd⟩
  | loopTest => exact ⟨⟨rfl, ⟨Node.grouped_missing, nofun⟩, hc⟩, hd⟩
  | loopBody => exact ⟨⟨hc, Node.grouped_missing, nofun⟩, hd⟩

theorem Shift.grouped (h : Shift t s u) (ht : t.kind ≠ .leftParen) (hs : s.Grouped t)
    (next : Token) : u.Grouped next := by
  obtain ⟨hc, hd⟩ := hs
  cases h with
  | minus | identifier | whileWord => exact ⟨hc, hd⟩
  | number => exact ⟨⟨hc, Node.grouped_number, rfl, rfl⟩, hd⟩
  | leftParen hk => exact absurd hk ht
  | tested => exact ⟨⟨rfl, ⟨Node.grouped_missing, nofun⟩, hc⟩, hd⟩
  | elseWord => exact ⟨⟨hc, Node.grouped_missing, nofun⟩, hd⟩
  | literal => exact ⟨⟨hc, Node.grouped_literal, rfl, rfl⟩, hd⟩
  | negatedNumber =>
    exact ⟨⟨hc, Node.grouped_negative.mpr ⟨rfl, Node.grouped_number⟩, rfl, rfl⟩, hd⟩
  | negatedIdentifier =>
    exact ⟨⟨hc, Node.grouped_negative.mpr ⟨rfl, Node.grouped_identifier⟩, rfl, rfl⟩, hd⟩
  | assign => exact ⟨⟨rfl, trivial, hc⟩, hd⟩
  | equals => exact ⟨⟨rfl, hc.2.1, hc.1⟩, hd⟩
  | operator hp =>
    obtain ⟨hf, hg, -, hl⟩ := hc
    exact ⟨⟨rfl, ⟨hg, hl, hp⟩, hf⟩, hd⟩
  | rightParen =>
    obtain ⟨⟨-, hfalse, -⟩, -⟩ := hc
    exact absurd hfalse id
  | leftBrace => exact ⟨⟨hc.1, hc.2, nofun⟩, hd⟩
  | loopEnd =>
    obtain ⟨hf, hh, hb⟩ := hc
    have hn := Node.grouped_whileLoop.mpr ⟨hh.test, hb⟩
    exact ⟨⟨hf, hn, nofun, next.not_negativeValue_lt⟩, hd⟩
  | branchEnd =>
    obtain ⟨hf, hh, hb⟩ := hc
    refine ⟨⟨hf, fun link hm => ?_⟩, hd⟩
    rcases List.mem_append.mp hm with hm | hm
    · exact hh.earlier link hm
    · rw [List.mem_singleton.mp hm]
      exact ⟨hh.test, hb⟩
  | elifBranch => exact ⟨⟨rfl, ⟨Node.grouped_missing, hc.2⟩, hc.1⟩, hd⟩
  | elseBranch => exact ⟨⟨hc.1, Node.grouped_missing, hc.2⟩, hd⟩
  | finish => exact ⟨hc, hd⟩

theorem grouped_of_parse {bound : Nat} {text : String} {nodes : List Node}
    (ht : ∀ t ∈ (Tokens.ofText text).toList, t.kind ≠ .leftParen)
    (h : parse bound text = .ok nodes) : ∀ n ∈ nodes, n.Grouped := by
  have hc : ∀ t ∈ (Tokens.plain text.toList).toList, t.kind ≠ .leftParen := by
    intro t hm
    rw [Tokens.toList_plain] at hm
    obtain ⟨t', hm', rfl⟩ := List.mem_map.mp hm
    exact ht t' (List.mem_filter.mp hm').1
  obtain ⟨_, frames, hs⟩ := parse_induction (P := fun _ next s => s.Grouped next) h hc
    (fun _ => ⟨trivial, nofun⟩) (fun hm hs => hm.grouped hs) (fun ht hu hs => hu.grouped ht hs)
  exact hs.done

end Parser

/-! ## Rows of operands and operators -/

/-- A number, a name or a quoted text. -/
inductive Token.IsAtom : Token → Prop where
  | number (value : Float) : IsAtom { kind := .number, number := value }
  | identifier (name : String) : IsAtom { kind := .identifier, text := name }
  | quoted (text : String) : IsAtom { kind := .literal, text }

/-- An atom, or a minus and an atom. -/
inductive Token.Signed : List Token → Prop where
  | plain {atom : Token} (h : atom.IsAtom) : Signed [atom]
  | minus {atom : Token} (h : atom.IsAtom) : Signed [{ kind := .subtract }, atom]

/-- Operands, each with at most one minus, joined by arithmetic operators. -/
inductive Token.Alternates : List Token → Prop where
  | operand {ts : List Token} (h : Signed ts) : Alternates ts
  | operator {ts ts' : List Token} {op : Token.Kind} (h : Alternates ts) (ho : op.isArithmetic)
      (h' : Signed ts') : Alternates (ts ++ { kind := op } :: ts')

/-- The tree of an operand. -/
inductive Node.IsOperand : Node → Prop where
  | number (value : Float) : IsOperand (.number value)
  | identifier (name : String) : IsOperand (.identifier name)
  | quoted (text : String) : IsOperand (.literal text .none)
  | negativeNumber (value : Float) : IsOperand (.negative (.number value))
  | negativeIdentifier (name : String) : IsOperand (.negative (.identifier name))
  | negativeQuoted (text : String) : IsOperand (.negative (.literal text .none))

/-- A tree of operators with operands at its leaves. -/
inductive Node.Arithmetic : Node → Prop where
  | operand {n : Node} (h : n.IsOperand) : Arithmetic n
  | binary {op : Token.Kind} {left right : Node} (ho : op.isArithmetic) (hl : Arithmetic left)
      (hr : Arithmetic right) : Arithmetic (.binary op left right)

namespace Node

variable {n : Node} {op : Token.Kind}

theorem IsOperand.isBinary (h : n.IsOperand) : n.isBinary = false := by
  cases h <;> rfl

theorem IsOperand.fitsLeft (h : n.IsOperand) : n.FitsLeft op := by
  cases h <;> trivial

theorem IsOperand.fitsRight (h : n.IsOperand) : n.FitsRight op := by
  cases h <;> trivial

theorem IsOperand.grouped (h : n.IsOperand) : n.Grouped := by
  cases h <;> simp [grouped_negative, Node.isBinary]

theorem IsOperand.reads (h : n.IsOperand) {floor level : Precedence} :
    Parser.Reads floor n.flatten level n := by
  have hq := Owner.ne_keyword (k := .none) (by decide)
  cases h with
  | number value => exact Parser.reads_number value
  | identifier name => exact Parser.reads_identifier name
  | quoted text => exact Parser.reads_literal hq
  | negativeNumber value => exact Parser.reads_negative_number value
  | negativeIdentifier name => exact Parser.reads_negative_identifier name
  | negativeQuoted text => exact (Parser.reads_literal hq).negative (by simp) (by simp)

theorem Arithmetic.default_lt_level (h : n.Arithmetic) (hb : n.isBinary) : .default < n.level := by
  cases h with
  | operand ho => simp [ho.isBinary] at hb
  | binary ho => exact (Token.Kind.isArithmetic_iff_lt_precedence _).mp ho

/-- A grouped tree of operators is read from its tokens, if its operator binds tightly enough. -/
theorem Arithmetic.reads (ha : n.Arithmetic) (hg : n.Grouped) {floor : Precedence}
    (hf : n.isBinary → floor < n.level) : Parser.Reads floor n.flatten n.level n := by
  induction ha generalizing floor with
  | operand h => exact h.reads
  | @binary op left right ho hl hr ihl ihr =>
    obtain ⟨⟨hleft, hright⟩, hgl, hgr⟩ := grouped_binary.mp hg
    have hfloor : floor < op.precedence := hf rfl
    have hlevel := hleft.not_level_lt
    refine (ihl hgl fun _ => ?_).binary (ihr hgr (fitsRight_iff.mp hright)) hfloor hlevel ?_
    · simp only [Precedence.lt_iff_rank_lt] at hfloor hlevel ⊢
      omega
    · cases hr with
      | operand h => exact h.fitsLeft.not_level_lt
      | binary => exact Nat.not_lt.mpr (Nat.le_of_lt hright)

/--
One more operator and operand. The operator goes down the right side of the tree, past all operators
that bind less tightly, and takes what it finds there as its left operand.
-/
theorem Arithmetic.exists_insert (ha : n.Arithmetic) (hg : n.Grouped) (ho : op.isArithmetic)
    {operand : Node} (h : operand.IsOperand) :
    ∃ m : Node, m.Arithmetic ∧ m.Grouped ∧ m.flatten = n.flatten ++ { kind := op } :: operand.flatten ∧
      ∀ {outer : Token.Kind}, outer.precedence < op.precedence → n.FitsRight outer →
        m.FitsRight outer := by
  induction ha with
  | @operand n hn =>
    refine ⟨.binary op n operand, .binary ho (.operand hn) (.operand h), ?_, rfl, fun hp _ => hp⟩
    exact grouped_binary.mpr ⟨⟨hn.fitsLeft, h.fitsRight⟩, hg, h.grouped⟩
  | @binary inner left right hi hl hr ihl ihr =>
    by_cases hp : inner.precedence < op.precedence
    · obtain ⟨⟨hleft, hright⟩, hgl, hgr⟩ := grouped_binary.mp hg
      obtain ⟨m, hm, hmg, hflat, hfits⟩ := ihr hgr
      refine ⟨.binary inner left m, .binary hi hl hm, ?_, ?_, fun _ ho => ho⟩
      · exact grouped_binary.mpr ⟨⟨hleft, hfits hp hright⟩, hgl, hmg⟩
      · simp [Node.flatten, hflat]
    · refine ⟨.binary op (.binary inner left right) operand,
        .binary ho (.binary hi hl hr) (.operand h), ?_, rfl, fun hp _ => hp⟩
      exact grouped_binary.mpr ⟨⟨Nat.not_lt.mp hp, h.fitsRight⟩, hg, h.grouped⟩

end Node

namespace Token

theorem Signed.exists_operand {ts : List Token} (h : Signed ts) :
    ∃ n : Node, n.IsOperand ∧ n.flatten = ts := by
  cases h with
  | plain ha =>
    cases ha with
    | number value => exact ⟨_, .number value, rfl⟩
    | identifier name => exact ⟨_, .identifier name, rfl⟩
    | quoted text => exact ⟨_, .quoted text, rfl⟩
  | minus ha =>
    cases ha with
    | number value => exact ⟨_, .negativeNumber value, rfl⟩
    | identifier name => exact ⟨_, .negativeIdentifier name, rfl⟩
    | quoted text => exact ⟨_, .negativeQuoted text, rfl⟩

theorem Alternates.exists_grouped {ts : List Token} (h : Alternates ts) :
    ∃ n : Node, n.Arithmetic ∧ n.Grouped ∧ n.flatten = ts := by
  induction h with
  | operand hs =>
    obtain ⟨n, hn, hf⟩ := hs.exists_operand
    exact ⟨n, .operand hn, hn.grouped, hf⟩
  | operator h ho hs ih =>
    obtain ⟨n, hn, hg, rfl⟩ := ih
    obtain ⟨a, ha, rfl⟩ := hs.exists_operand
    obtain ⟨m, hm, hmg, hf, -⟩ := hn.exists_insert hg ho ha
    exact ⟨m, hm, hmg, hf⟩

end Token

/--
Without parentheses every tree is grouped. A row of operands and operators has exactly one grouped
tree, and this tree is all that the parser returns.
-/
theorem Parser.parse_grouping :
    (∀ (bound : Nat) (text : String) (nodes : List Node),
      (∀ t ∈ (Tokens.ofText text).toList, t.kind ≠ .leftParen ∧ t.kind ≠ .rightParen) →
        parse bound text = .ok nodes → ∀ n ∈ nodes, n.Grouped) ∧
    ∀ (text : String) (ts : List Token), Token.Alternates ts →
      Tokens.plain text.toList = Tokens.ofList ts →
        ∃ n : Node, parse 0 text = .ok [n] ∧ n.Arithmetic ∧ n.flatten = ts ∧ n.Grouped ∧
          ∀ m : Node, m.Arithmetic → m.flatten = ts → m.Grouped → m = n := by
  refine ⟨fun bound text nodes ht => grouped_of_parse fun t hm => (ht t hm).1, ?_⟩
  intro text ts h hp
  have hparse {m : Node} (hm : m.Arithmetic) (hf : m.flatten = ts) (hg : m.Grouped) :
      parse 0 text = .ok [m] := by
    have hreads := hm.reads hg hm.default_lt_level
    rw [hf] at hreads
    exact hreads.parse_eq hp
  obtain ⟨n, hn, hg, hf⟩ := h.exists_grouped
  refine ⟨n, hparse hn hf hg, hn, hf, hg, fun m hm hmf hmg => ?_⟩
  simpa [hparse hn hf hg] using (hparse hm hmf hmg).symm

/-- Powers group to the left, like all operators, and a minus belongs to its operand. -/
theorem Parser.parse_grouping_power :
    ∃ n, n = Node.binary .subtract (.negative (.identifier "a"))
        (.binary .power (.binary .power (.identifier "b") (.literal "c" .none)) (.identifier "d")) ∧
      (∀ t ∈ (Tokens.ofText "-a - b ^ \"c\" ^ d").toList,
        t.kind ≠ .leftParen ∧ t.kind ≠ .rightParen) ∧
      Token.Alternates n.flatten ∧ parse 0 "-a - b ^ \"c\" ^ d" = .ok [n] ∧ n.Grouped := by
  have hk : ∀ t ∈ (Tokens.ofText "-a - b ^ \"c\" ^ d").toList,
      t.kind ≠ .leftParen ∧ t.kind ≠ .rightParen := by
    have hall : ((Tokens.ofText "-a - b ^ \"c\" ^ d").toList.all fun t =>
        t.kind ≠ .leftParen ∧ t.kind ≠ .rightParen) = true := by cbv
    simpa using hall
  have hminus : Token.Kind.subtract.isArithmetic := rfl
  have hpower : Token.Kind.power.isArithmetic := rfl
  have ha := Token.Alternates.operator (.operator (.operator (.operand (.minus (.identifier "a")))
    hminus (.plain (.identifier "b"))) hpower (.plain (.quoted "c"))) hpower (.plain (.identifier "d"))
  obtain ⟨n, hn, -, -, -, hunique⟩ := parse_grouping.2 "-a - b ^ \"c\" ^ d" _ ha (by cbv)
  have htree : (Node.binary .subtract (.negative (.identifier "a"))
      (.binary .power (.binary .power (.identifier "b") (.literal "c" .none))
        (.identifier "d"))).Arithmetic :=
    .binary rfl (.operand (.negativeIdentifier "a")) (.binary rfl (.binary rfl
      (.operand (.identifier "b")) (.operand (.quoted "c"))) (.operand (.identifier "d")))
  obtain rfl := hunique _ htree rfl (by simp [Node.grouped_binary, Node.grouped_negative,
    Node.FitsLeft, Node.FitsRight, Node.isBinary, Token.Kind.precedence, Precedence.rank])
  exact ⟨_, rfl, hk, ha, hn, parse_grouping.1 0 _ _ hk hn _ List.mem_cons_self⟩

end Scriptlet
