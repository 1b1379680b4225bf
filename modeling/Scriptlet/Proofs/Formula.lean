import Scriptlet.Proofs.Negation
import Scriptlet.Proofs.Respelling
import Scriptlet.Proofs.Spacing

/-!
# The formulas that the parser builds

A formula is made of numbers and names by operators, minuses and equality tests. In a formula that the
parser builds, the numbers are finite and without a sign, the names are words of the language, and the
left side of an equality test is a number, a name or a negation. It is never an operator or a test,
because an equality sign is taken right after an operand.

## Main definitions

* `Node.isFormula`: a tree of numbers, names, operators, minuses and equality tests
* `Node.Formula`: a formula that has a spelling
* `Node.Legible`: a tree whose numbers and equality tests can come from a text
* `Node.spelled`: the tokens of a formula, with all parentheses

## Main statements

* `Parser.Move.legible`, `Parser.Shift.legible`: one step keeps all trees legible
* `Parser.legible_of_parse`: every tree that the parser returns is legible
* `Parser.formula_of_parse`: the formulas that the parser builds have a spelling
* `Node.Formula.exists_parse`: the formulas that have a spelling are built by the parser
-/

namespace Scriptlet

theorem Token.Scanned.isWord {name : String} (h : Scanned { kind := .identifier, text := name }) :
    Text.IsWord name ∧ Keyword.ofWord? name = none := by
  cases h with
  | identifier hw hk => exact ⟨hw, hk⟩
  | symbol hk => exact absurd hk (by simp [Lexeme.wordKinds])

theorem Lexeme.isUnsigned_of_read {l : Lexeme} {t : Token} (h : l.read = .ok t) :
    Number.IsUnsigned t.number := by
  refine ⟨?_, isNegative_of_read h⟩
  obtain hz | ⟨d, hd, hi⟩ := number_of_read h
  · rw [hz]
    decide
  · rw [hd]
    exact Number.isSome_magnitude?_toFloat hi

namespace Node

/-- A tree of numbers, names, operators, minuses and equality tests. -/
def isFormula : Node → Bool
  | number _ | identifier _ => true
  | negative operand => operand.isFormula
  | binary _ left right | condition left right => left.isFormula && right.isFormula
  | _ => false
termination_by structural n => n

/-- What an equality sign can follow. -/
def isComparand : Node → Bool
  | number _ | identifier _ | literal .. | negative _ => true
  | _ => false

/-- A number that has a spelling, a test that an equality sign can make, or any other tree. -/
def Readable : Node → Prop
  | number value => Number.IsUnsigned value
  | condition left _ => left.isComparand
  | _ => True

/-- All trees in a tree are readable. -/
def Legible (n : Node) : Prop := ∀ m ∈ n.subtrees, m.Readable

/-- No name in a tree ends with a closing parenthesis. -/
def NoClosingName (n : Node) : Prop :=
  ∀ name, .identifier name ∈ n.subtrees → name.toList.getLast? ≠ some ')'

/-- The formulas that have a spelling and whose names can stand in front of a parenthesis. -/
inductive Formula : Node → Prop where
  | number {value : Float} (h : Number.IsUnsigned value) : Formula (.number value)
  | identifier {name : String} (hw : Text.IsWord name) (hk : Keyword.ofWord? name = none)
      (hp : name.toList.getLast? ≠ some ')') : Formula (.identifier name)
  | negative {operand : Node} (h : Formula operand) : Formula (.negative operand)
  | binary {op : Token.Kind} {left right : Node} (ho : op.isArithmetic) (hl : Formula left)
      (hr : Formula right) : Formula (.binary op left right)
  | condition {left right : Node} (hc : left.isComparand) (hl : Formula left) (hr : Formula right) :
      Formula (.condition left right)

variable {op : Token.Kind} {left right operand value test : Node} {target : Option String}
  {body : List Node}

theorem legible_number {value : Float} : (number value).Legible ↔ Number.IsUnsigned value := by
  simp [Legible, Readable]

@[simp] theorem legible_identifier {name : String} : (identifier name).Legible := by
  simp [Legible, Readable]

@[simp] theorem legible_literal {text : String} {k : Keyword} : (literal text k).Legible := by
  simp [Legible, Readable]

theorem legible_negative : (negative operand).Legible ↔ operand.Legible := by
  simp [Legible, Readable]

theorem legible_binary : (binary op left right).Legible ↔ left.Legible ∧ right.Legible := by
  simp [Legible, Readable, or_imp, forall_and]

theorem legible_assignment : (assignment target value).Legible ↔ value.Legible := by
  simp [Legible, Readable]

theorem legible_condition :
    (condition left right).Legible ↔ left.isComparand ∧ left.Legible ∧ right.Legible := by
  simp [Legible, Readable, or_imp, forall_and]

theorem legible_whileLoop :
    (whileLoop test body).Legible ↔ test.Legible ∧ ∀ n ∈ body, n.Legible := by
  simp only [Legible, subtrees, List.forall_mem_cons, List.forall_mem_append, mem_subtreesAll]
  simp only [Readable, true_and]
  grind

theorem Formula.isFormula {n : Node} (h : n.Formula) : n.isFormula := by
  induction h with
  | number | identifier => rfl
  | negative _ ih => exact ih
  | binary _ _ _ ihl ihr | condition _ _ _ ihl ihr => exact (Bool.and_eq_true _ _).mpr ⟨ihl, ihr⟩

theorem Formula.noClosingName {n : Node} (h : n.Formula) : n.NoClosingName := by
  intro name hm
  induction h with
  | number => simp at hm
  | identifier _ _ hp =>
    obtain rfl : name = _ := by simpa using hm
    exact hp
  | negative _ ih => exact ih (by simpa using hm)
  | binary _ _ _ ihl ihr | condition _ _ _ ihl ihr =>
    simp only [subtrees, List.mem_cons, List.mem_append, reduceCtorEq, false_or] at hm
    exact hm.elim ihl ihr

theorem Proper.formula : ∀ {n : Node}, n.Proper → n.Legible → n.isFormula → n.NoClosingName →
    n.Formula
  | .number _, _, hl, _, _ => .number (legible_number.mp hl)
  | .identifier name, .identifier h, _, _, hp => by
    obtain ⟨hw, hk⟩ := h.isWord
    exact .identifier hw hk (hp name (by simp))
  | .negative operand, .negative h, hl, hf, hp =>
    .negative (h.formula (legible_negative.mp hl) hf fun name hm => hp name (by simp [hm]))
  | .binary op left right, .binary ho h h', hl, hf, hp => by
    obtain ⟨hleft, hright⟩ := legible_binary.mp hl
    obtain ⟨hf, hf'⟩ := (Bool.and_eq_true _ _).mp hf
    exact .binary ho (h.formula hleft hf fun name hm => hp name (by simp [hm]))
      (h'.formula hright hf' fun name hm => hp name (by simp [hm]))
  | .condition left right, .condition h h', hl, hf, hp => by
    obtain ⟨hc, hleft, hright⟩ := legible_condition.mp hl
    obtain ⟨hf, hf'⟩ := (Bool.and_eq_true _ _).mp hf
    exact .condition hc (h.formula hleft hf fun name hm => hp name (by simp [hm]))
      (h'.formula hright hf' fun name hm => hp name (by simp [hm]))

end Node

namespace Parser

variable {t : Token} {s u : State} {links : List (Node × List Node)} {body : List Node}

/-- The trees in the branches of a conditional are legible. -/
def LegibleLinks (links : List (Node × List Node)) : Prop :=
  ∀ link ∈ links, link.1.Legible ∧ ∀ n ∈ link.2, n.Legible

def Head.Legible (head : Head) : Prop := head.test.Legible ∧ LegibleLinks head.earlier

def Pending.Legible : Pending → Prop
  | .operand left _ => left.Legible
  | .comparand left => left.Legible ∧ left.isComparand
  | .negation | .group | .value _ => True
  | .test head => head.Legible
  | .statement head body => head.Legible ∧ ∀ n ∈ body, n.Legible

def Control.Legible : Control → Prop
  | .top | .start _ | .negated _ | .named .. | .loop _ => True
  | .block _ head body => head.Legible ∧ ∀ n ∈ body, n.Legible
  | .atom _ node => node.Legible ∧ node.isComparand
  | .complete _ node => node.Legible
  | .opening _ head => head.Legible
  | .branches _ _ _ links => LegibleLinks links

/-- All trees that were read are legible, and an open test begins with what an equality sign follows. -/
structure State.Legible (s : State) : Prop where
  control : s.control.Legible
  frames : ∀ frame ∈ s.frames, frame.pending.Legible
  done : ∀ n ∈ s.done, n.Legible

theorem legible_concat {node : Node} (hb : ∀ n ∈ body, n.Legible) (hn : node.Legible) :
    ∀ n ∈ body ++ [node], n.Legible := by
  simpa [or_imp, forall_and] using ⟨hb, hn⟩

theorem LegibleLinks.readable (h : LegibleLinks links) : ∀ m ∈ linkTrees links, m.Readable := by
  intro m hm
  obtain ⟨link, hlink, hm⟩ := List.mem_flatMap.mp hm
  obtain ⟨htest, hbody⟩ := h link hlink
  rcases List.mem_append.mp hm with hm | hm
  · exact htest m hm
  · obtain ⟨n, hn, hm⟩ := Node.mem_subtreesAll.mp hm
    exact hbody n hn m hm

theorem legible_chainNode {first : Owner} (h : LegibleLinks links) :
    (chainNode first links).Legible := by
  intro m hm
  rcases mem_subtrees_chainNode hm with rfl | hm
  · cases links with
    | nil => trivial
    | cons link links =>
      rw [chainNode]
      split <;> trivial
  · exact h.readable m hm

theorem Head.legible_starting (owner : Owner) : (Head.starting owner).Legible :=
  ⟨by simp [Head.starting, Node.Legible, Node.Readable], nofun⟩

theorem Move.legible (h : Move t s u) (hs : s.Legible) : u.Legible := by
  obtain ⟨hc, hf, hd⟩ := hs
  cases h with
  | name => exact ⟨⟨Node.legible_identifier, rfl⟩, hf, hd⟩
  | atom => exact ⟨hc.1, hf, hd⟩
  | chain => exact ⟨legible_chainNode hc, hf, hd⟩
  | binary =>
    obtain ⟨hl, hf⟩ := List.forall_mem_cons.mp hf
    exact ⟨Node.legible_binary.mpr ⟨hl, hc⟩, hf, hd⟩
  | negative => exact ⟨⟨Node.legible_negative.mpr hc, rfl⟩, (List.forall_mem_cons.mp hf).2, hd⟩
  | assignment => exact ⟨Node.legible_assignment.mpr hc, (List.forall_mem_cons.mp hf).2, hd⟩
  | condition =>
    obtain ⟨⟨hl, hleft⟩, hf⟩ := List.forall_mem_cons.mp hf
    exact ⟨Node.legible_condition.mpr ⟨hleft, hl, hc⟩, hf, hd⟩
  | test =>
    obtain ⟨hh, hf⟩ := List.forall_mem_cons.mp hf
    exact ⟨⟨hc, hh.2⟩, hf, hd⟩
  | statement =>
    obtain ⟨⟨hh, hb⟩, hf⟩ := List.forall_mem_cons.mp hf
    exact ⟨⟨hh, legible_concat hb hc⟩, hf, hd⟩
  | last => exact ⟨trivial, hf, legible_concat hd hc⟩
  | fresh => exact ⟨trivial, hf, hd⟩
  | inside => exact ⟨trivial, List.forall_mem_cons.mpr ⟨hc, hf⟩, hd⟩
  | operand => exact ⟨trivial, List.forall_mem_cons.mpr ⟨trivial, hf⟩, hd⟩
  | loopTest => exact ⟨trivial, List.forall_mem_cons.mpr ⟨Head.legible_starting _, hf⟩, hd⟩
  | loopBody => exact ⟨Head.legible_starting _, hf, hd⟩

theorem Shift.legible (h : Shift t s u) (hn : Number.IsUnsigned t.number) (hs : s.Legible) :
    u.Legible := by
  obtain ⟨hc, hf, hd⟩ := hs
  cases h with
  | minus | whileWord | finish => exact ⟨trivial, hf, hd⟩
  | number => exact ⟨⟨Node.legible_number.mpr hn, rfl⟩, hf, hd⟩
  | leftParen | assign => exact ⟨trivial, List.forall_mem_cons.mpr ⟨trivial, hf⟩, hd⟩
  | identifier => exact ⟨trivial, hf, hd⟩
  | tested => exact ⟨trivial, List.forall_mem_cons.mpr ⟨Head.legible_starting _, hf⟩, hd⟩
  | elseWord => exact ⟨Head.legible_starting _, hf, hd⟩
  | literal => exact ⟨⟨Node.legible_literal, rfl⟩, hf, hd⟩
  | negatedNumber => exact ⟨⟨Node.legible_negative.mpr (Node.legible_number.mpr hn), rfl⟩, hf, hd⟩
  | negatedIdentifier => exact ⟨⟨Node.legible_negative.mpr Node.legible_identifier, rfl⟩, hf, hd⟩
  | equals | operator => exact ⟨trivial, List.forall_mem_cons.mpr ⟨hc, hf⟩, hd⟩
  | rightParen => exact ⟨hc, (List.forall_mem_cons.mp hf).2, hd⟩
  | leftBrace => exact ⟨⟨hc, nofun⟩, hf, hd⟩
  | loopEnd => exact ⟨Node.legible_whileLoop.mpr ⟨hc.1.1, hc.2⟩, hf, hd⟩
  | branchEnd =>
    obtain ⟨⟨htest, hlinks⟩, hb⟩ := hc
    exact ⟨List.forall_mem_append.mpr ⟨hlinks, List.forall_mem_singleton.mpr ⟨htest, hb⟩⟩, hf, hd⟩
  | elifBranch =>
    exact ⟨trivial, List.forall_mem_cons.mpr ⟨⟨(Head.legible_starting .elifWord).1, hc⟩, hf⟩, hd⟩
  | elseBranch => exact ⟨⟨(Head.legible_starting .elseWord).1, hc⟩, hf, hd⟩

theorem legible_of_parse {bound : Nat} {text : String} {nodes : List Node}
    (h : parse bound text = .ok nodes) : ∀ n ∈ nodes, n.Legible := by
  have hnumber : ∀ t ∈ (Tokens.plain text.toList).toList, Number.IsUnsigned t.number := by
    intro t ht
    obtain ⟨ds, l, -, hr, -⟩ := Tokens.exists_read_of_mem_plain ht
    exact Lexeme.isUnsigned_of_read hr
  obtain ⟨_, frames, hs⟩ := parse_induction (P := fun _ _ s => s.Legible) h hnumber
    (fun _ => ⟨trivial, nofun, nofun⟩) (fun hm hs => hm.legible hs)
    (fun ht hu hs _ => hu.legible ht hs)
  exact hs.done

/-- A formula that the parser builds has a spelling. -/
theorem formula_of_parse {bound : Nat} {text : String} {nodes : List Node} {n : Node}
    (h : parse bound text = .ok nodes) (hn : n ∈ nodes) (hf : n.isFormula)
    (hp : n.NoClosingName) : n.Formula :=
  (proper_of_parse h n hn).formula (legible_of_parse h n hn) hf hp

end Parser

/-! ## A text for every formula -/

theorem Token.Kind.mem_symbols_of_isArithmetic {op : Token.Kind} (h : op.isArithmetic) :
    op ∈ Lexeme.symbols := by
  cases op with
  | add | subtract | multiply | divide | power => decide
  | _ => cases h

namespace Node

/-- The tokens of a formula, with parentheses around the operands of every minus and operator. -/
def spelled : Node → List Token
  | number value => [{ kind := .number, number := value }]
  | identifier name => [{ kind := .identifier, text := name }]
  | negative operand => { kind := .subtract } :: inParens true operand.spelled
  | binary op left right =>
    inParens true left.spelled ++ { kind := op } :: inParens true right.spelled
  | condition left right => left.spelled ++ { kind := .equals } :: right.spelled
  | _ => []
termination_by structural n => n

variable {n : Node} {ts : List Token}

theorem forall_mem_inParens {P : Token → Prop} (hl : P { kind := .leftParen })
    (hr : P { kind := .rightParen }) (h : ∀ t ∈ ts, P t) : ∀ t ∈ inParens true ts, P t :=
  List.forall_mem_cons.mpr ⟨hl, List.forall_mem_append.mpr ⟨h, List.forall_mem_singleton.mpr hr⟩⟩

theorem Formula.spellable (h : n.Formula) : ∀ t ∈ n.spelled, t.Spellable ∧ t.bare = t := by
  have hsymbol {k : Token.Kind} (hk : k ∈ Lexeme.symbols) :
      ({ kind := k } : Token).Spellable ∧ ({ kind := k } : Token).bare = { kind := k } :=
    ⟨.symbol hk, rfl⟩
  have hparens {ts : List Token} (h : ∀ t ∈ ts, t.Spellable ∧ t.bare = t) :
      ∀ t ∈ inParens true ts, t.Spellable ∧ t.bare = t :=
    forall_mem_inParens (hsymbol (by decide)) (hsymbol (by decide)) h
  induction h with
  | number hv => exact List.forall_mem_singleton.mpr ⟨.number hv, rfl⟩
  | identifier hw hk => exact List.forall_mem_singleton.mpr ⟨.identifier hw hk, rfl⟩
  | negative _ ih => exact List.forall_mem_cons.mpr ⟨hsymbol (by decide), hparens ih⟩
  | binary ho _ _ ihl ihr =>
    have hop := hsymbol (Token.Kind.mem_symbols_of_isArithmetic ho)
    exact List.forall_mem_append.mpr ⟨hparens ihl, List.forall_mem_cons.mpr ⟨hop, hparens ihr⟩⟩
  | condition _ _ _ ihl ihr =>
    exact List.forall_mem_append.mpr ⟨ihl, List.forall_mem_cons.mpr ⟨hsymbol (by decide), ihr⟩⟩

/-- With all these parentheses, the tokens are read as the formula. -/
theorem Formula.reads_spelled (h : n.Formula) : Parser.Reads .default n.spelled .default n ∧
    (n.isComparand → Parser.ReadsAtom .default n.spelled n) := by
  induction h with
  | number => exact ⟨Parser.reads_number _, fun _ => Parser.readsAtom_number _⟩
  | identifier => exact ⟨Parser.reads_identifier _, fun _ => Parser.readsAtom_identifier _⟩
  | negative _ ih =>
    exact ⟨ih.1.group.negative (by simp) (by simp), fun _ => ih.1.readsAtom_negative_group⟩
  | @binary op left right ho _ _ ihl ihr =>
    have hfloor := (Token.Kind.isArithmetic_iff_lt_precedence op).mp ho
    have hright : Parser.Reads op.precedence (inParens true right.spelled) .default right := ihr.1.group
    exact ⟨ihl.1.group.binary_upTo hright hfloor (Token.not_negativeValue_lt { kind := op })
      (Precedence.not_lt_default _) (Precedence.not_lt_default _), nofun⟩
  | condition hc _ _ ihl ihr => exact ⟨.condition (ihl.2 hc) ihr.1, nofun⟩

/-- Every formula that has a spelling is what the parser gives for some text. -/
theorem Formula.exists_parse (h : n.Formula) : ∃ text, Parser.parse 0 text = .ok [n] := by
  have hplain := (Token.spells_intercalate fun t ht => (h.spellable t ht).1).plain_eq
  have hbare : n.spelled.map Token.bare = n.spelled :=
    (List.map_congr_left fun t ht => (h.spellable t ht).2).trans (List.map_id' _)
  rw [hbare] at hplain
  exact ⟨_, h.reads_spelled.1.parse_eq hplain⟩

end Node

end Scriptlet
