import Scriptlet.Proofs.Grouping
import Scriptlet.Proofs.Number.ReadBack
import Scriptlet.Proofs.Spelling

/-!
# Parsing what was printed

A tree that is printed and parsed again is the same tree, as long as it can be spelled at all: a word
runs to the next blank, so no closing parenthesis may follow a name directly, and the semicolon that
is printed between the statements of a block is no token of the language.

Printing and parsing are compared through the tokens. Each construct has one lemma, which says how
its text is scanned and how its tokens are read.

## Main definitions

* `Node.Expression`, `Node.Statement`, `Chain.Branches`: the trees that can be spelled
* `Node.Written`: the tokens of an expression, both as its text and as its reading

## Main statements

* `Node.Expression.exists_written`: the tokens of an expression
* `Node.Statement.exists_tokens`: the tokens of a statement
* `Parser.parse_format`: a statement that is printed and parsed is the same statement
-/

namespace Scriptlet

theorem Precedence.lt_of_not_lt_of_ne {p q : Precedence} (h : ¬ p < q) (hne : p ≠ q) : q < p := by
  cases p <;> cases q <;> simp_all [Precedence.lt_iff_rank_lt, Precedence.rank]

theorem Precedence.default_lt_negativeValue : Precedence.default < .negativeValue := by decide

/-- A finite number whose sign bit is clear. -/
structure Number.IsUnsigned (value : Float) : Prop where
  finite : (Number.magnitude? value).isSome
  positive : Number.isNegative value = false

namespace Node

/-- Whether the text of an expression ends with a name or a reserved word. -/
def endsInWord : Node → Bool
  | identifier _ => true
  | literal _ keyword => keyword ≠ .none
  | negative operand => !operand.isBinary && operand.endsInWord
  | binary op _ right => !right.needsParens op.precedence true && right.endsInWord
  | _ => false
termination_by structural n => n

/-- The expressions that can be spelled: what is put in parentheses does not end with a word. -/
inductive Expression : Node → Prop where
  | number {value : Float} (h : Number.IsUnsigned value) : Expression (.number value)
  | identifier {name : String} (hw : Text.IsWord name) (hk : Keyword.ofWord? name = none) :
      Expression (.identifier name)
  | true : Expression (.literal "true" .true)
  | false : Expression (.literal "false" .false)
  | text {text : String} (h : ∀ c ∈ text.toList, Text.IsPlain c) : Expression (.literal text .none)
  | negative {operand : Node} (h : Expression operand)
      (hw : operand.isBinary → operand.endsInWord = Bool.false) : Expression (.negative operand)
  | binary {op : Token.Kind} {left right : Node} (ho : op.isArithmetic) (hl : Expression left)
      (hr : Expression right)
      (hwl : left.needsParens op.precedence Bool.false → left.endsInWord = Bool.false)
      (hwr : right.needsParens op.precedence Bool.true → right.endsInWord = Bool.false) :
      Expression (.binary op left right)

/-- The tokens `ts` are scanned from the text of an expression, and read as the expression. -/
structure Written (n : Node) (ts : List Token) : Prop where
  spells : Text.Spells n.format.toList ts n.endsInWord
  reads : ∀ floor, (n.isBinary → floor < n.level) → Parser.Reads floor ts n.level n
  negated : n.isBinary = false → ∀ floor level,
    Parser.Reads floor ({ kind := .subtract } :: ts) level (.negative n)
  binds : .default < n.level
  tight : n.isBinary = false → n.level = .negativeValue

/-- Tokens in parentheses, if they are needed. -/
def inParens (needed : Bool) (ts : List Token) : List Token :=
  if needed then { kind := .leftParen } :: (ts ++ [{ kind := .rightParen }]) else ts

variable {n left right : Node} {ts ts' : List Token} {op : Token.Kind} {needed : Bool}

theorem spells_parenthesize {text : String} {word : Bool} (h : Text.Spells text.toList ts word)
    (hw : needed → word = false) :
    Text.Spells (parenthesize needed text).toList (inParens needed ts) (!needed && word) := by
  cases needed with
  | false => simpa [parenthesize, inParens] using h
  | true =>
    obtain rfl := hw rfl
    have hp := h.rightParen.leftParen
    simpa [parenthesize, inParens] using hp

/-- An operand without parentheses binds at least as tightly as the operator. -/
theorem not_level_lt_of_needsParens (hn : n.needsParens op.precedence false = false)
    (ht : n.isBinary = false → n.level = .negativeValue) : ¬ n.level < op.precedence := by
  cases hb : n.isBinary with
  | false =>
    rw [ht hb]
    exact Token.not_negativeValue_lt { kind := op }
  | true =>
    cases n with
    | binary => simpa [needsParens, Node.level] using hn
    | _ => cases hb

/-- On the right it binds tighter. -/
theorem lt_level_of_needsParens (hn : n.needsParens op.precedence true = false)
    (hb : n.isBinary) : op.precedence < n.level := by
  cases n with
  | binary =>
    simp only [needsParens, Bool.true_and, Bool.or_eq_false_iff, decide_eq_false_iff_not,
      beq_eq_false_iff_ne] at hn
    exact Precedence.lt_of_not_lt_of_ne hn.1 hn.2
  | _ => cases hb

theorem needsParens_false_of_true (hn : n.needsParens op.precedence true = false) :
    n.needsParens op.precedence false = false := by
  cases n with
  | binary => simp_all [needsParens]
  | _ => rfl

/-- In parentheses an expression binds tightest; without them it has to fit by itself. -/
theorem reads_inParens {read : Node} {floor level : Precedence}
    (h : ∀ floor, (n.isBinary → floor < n.level) → Parser.Reads floor ts level read)
    (hf : n.isBinary → if needed then .default < n.level else floor < n.level) :
    Parser.Reads floor (inParens needed ts) (if needed then .negativeValue else level) read := by
  cases needed with
  | false => exact h floor hf
  | true => exact (h .default hf).group

/-- Two operands with the parentheses that they need are read as such. -/
theorem reads_operation {read read' : Node} {floor level level' outer : Precedence}
    (hl : ∀ floor, (left.isBinary → floor < left.level) → Parser.Reads floor ts level read)
    (hr : ∀ floor, (right.isBinary → floor < right.level) → Parser.Reads floor ts' level' read')
    (hbl : left.isBinary → .default < left.level) (hbr : right.isBinary → .default < right.level)
    (hfloor : floor < op.precedence) (ho : ¬ op.precedence < outer)
    (hlevel : left.needsParens op.precedence false = false → ¬ level < op.precedence)
    (hlevel' : right.needsParens op.precedence true = false → ¬ level' < outer) :
    Parser.Reads floor (inParens (left.needsParens op.precedence false) ts ++
      { kind := op } :: inParens (right.needsParens op.precedence true) ts') outer
      (.binary op read read') := by
  have htop := Token.not_negativeValue_lt { kind := op }
  refine (reads_inParens hl fun hb => ?_).binary_upTo (reads_inParens hr fun hb => ?_) hfloor ?_ ho ?_
  · split
    · exact hbl hb
    · rename_i hn
      have hlow := not_level_lt_of_needsParens (by simpa using hn) fun hf => by simp [hb] at hf
      simp only [Precedence.lt_iff_rank_lt] at hfloor hlow ⊢
      omega
  · split
    · exact hbr hb
    · rename_i hn
      exact lt_level_of_needsParens (by simpa using hn) hb
  · split
    · exact htop
    · rename_i hn
      exact hlevel (by simpa using hn)
  · split
    · simp only [Precedence.lt_iff_rank_lt, Token.precedence] at htop ho ⊢
      omega
    · rename_i hn
      exact hlevel' (by simpa using hn)

theorem format_negative : (negative n).format = "-" ++ parenthesize n.isBinary n.format := by
  cases n <;> rfl

theorem written_number {value : Float} (h : Number.IsUnsigned value) :
    (number value).Written [{ kind := .number, number := value }] := by
  refine ⟨?_, fun _ _ => Parser.reads_number value,
    fun _ _ _ => Parser.reads_negative_number value, Precedence.default_lt_negativeValue,
    fun _ => rfl⟩
  have hs := Text.spells_numeral (Number.isNumeral_text h.finite h.positive)
  rw [Number.toFloat_ofDigits_text h.finite h.positive] at hs
  exact hs (Number.isInf_eq_false h.finite)

theorem written_identifier {name : String} (hw : Text.IsWord name)
    (hk : Keyword.ofWord? name = none) :
    (identifier name).Written [{ kind := .identifier, text := name }] :=
  ⟨Text.spells_identifier hw hk, fun _ _ => Parser.reads_identifier name,
    fun _ _ _ => Parser.reads_negative_identifier name, Precedence.default_lt_negativeValue,
    fun _ => rfl⟩

/-- A literal is a quoted text or a word that starts no block. -/
theorem written_literal {text : String} {keyword : Keyword}
    (hs : Text.Spells (literal text keyword).format.toList [{ kind := .literal, text, keyword }]
      (literal text keyword).endsInWord) (ho : ∀ owner : Owner, keyword ≠ owner.keyword) :
    (literal text keyword).Written [{ kind := .literal, text, keyword }] :=
  ⟨hs, fun _ _ => Parser.reads_literal ho,
    fun _ _ _ => (Parser.reads_literal ho).negative (by simp) (by simp),
    Precedence.default_lt_negativeValue, fun _ => rfl⟩

theorem Written.negative (h : n.Written ts) (hw : n.isBinary → n.endsInWord = false) :
    (Node.negative n).Written ({ kind := .subtract } :: inParens n.isBinary ts) := by
  have hreads (floor level : Precedence) :
      Parser.Reads floor ({ kind := .subtract } :: inParens n.isBinary ts) level (.negative n) := by
    cases hb : n.isBinary with
    | false => exact h.negated hb floor level
    | true => exact (h.reads .default fun _ => h.binds).group.negative (by simp) (by simp)
  refine ⟨?_, fun floor _ => hreads floor _, fun _ floor level => ?_,
    Precedence.default_lt_negativeValue, fun _ => rfl⟩
  · have hs := (spells_parenthesize h.spells hw).minus
    rw [format_negative]
    simpa [endsInWord] using hs
  · exact (hreads .negativeValue level).negative (by simp) (by simp)

theorem Written.binary (hl : left.Written ts) (hr : right.Written ts') (ho : op.isArithmetic)
    (hwl : left.needsParens op.precedence false → left.endsInWord = false)
    (hwr : right.needsParens op.precedence true → right.endsInWord = false) :
    (binary op left right).Written (inParens (left.needsParens op.precedence false) ts ++
      { kind := op } :: inParens (right.needsParens op.precedence true) ts') := by
  have hspells := (spells_parenthesize hl.spells hwl).space
    ((Text.spells_operator ho).space (spells_parenthesize hr.spells hwr))
  refine ⟨?_, fun floor hf => ?_, nofun,
    (Token.Kind.isArithmetic_iff_lt_precedence op).mp ho, nofun⟩
  · have hf : (Node.binary op left right).format =
        parenthesize (left.needsParens op.precedence false) left.format ++ " " ++ op.name ++ " " ++
          parenthesize (right.needsParens op.precedence true) right.format := rfl
    rw [hf]
    simpa [endsInWord] using hspells
  · have htight (hn : right.needsParens op.precedence true = false) :=
      not_level_lt_of_needsParens (needsParens_false_of_true hn) hr.tight
    exact reads_operation hl.reads hr.reads (fun _ => hl.binds) (fun _ => hr.binds) (hf rfl)
      (by simp [Node.level, Precedence.lt_iff_rank_lt])
      (fun hn => not_level_lt_of_needsParens hn hl.tight) htight

theorem Expression.exists_written (h : n.Expression) : ∃ ts, n.Written ts := by
  induction h with
  | number h => exact ⟨_, written_number h⟩
  | identifier hw hk => exact ⟨_, written_identifier hw hk⟩
  | true => exact ⟨_, written_literal (Text.spells_keyword rfl) (Owner.ne_keyword (by decide))⟩
  | false => exact ⟨_, written_literal (Text.spells_keyword rfl) (Owner.ne_keyword (by decide))⟩
  | @text text h =>
    have hq : '"' ∉ text.toList := fun hm => (h _ hm).2.2.1 rfl
    have hs := Text.spells_quoted hq
    rw [← Text.quote_of_isPlain h, Token.quoted, String.ofList_toList] at hs
    exact ⟨_, written_literal hs (Owner.ne_keyword (by decide))⟩
  | negative h hw ih =>
    obtain ⟨ts, hts⟩ := ih
    exact ⟨_, hts.negative hw⟩
  | binary ho hl hr hwl hwr ihl ihr =>
    obtain ⟨ts, hts⟩ := ihl
    obtain ⟨ts', hts'⟩ := ihr
    exact ⟨_, hts.binary hts' ho hwl hwr⟩

/-- What can be spelled on the left of an equality sign: an atom, or one minus and an atom. -/
inductive Comparable : Node → Prop where
  | number {value : Float} (h : Number.IsUnsigned value) : Comparable (.number value)
  | identifier {name : String} (hw : Text.IsWord name) (hk : Keyword.ofWord? name = none) :
      Comparable (.identifier name)
  | negativeNumber {value : Float} (h : Number.IsUnsigned value) :
      Comparable (.negative (.number value))
  | negativeIdentifier {name : String} (hw : Text.IsWord name) (hk : Keyword.ofWord? name = none) :
      Comparable (.negative (.identifier name))

theorem Comparable.exists_tokens (h : n.Comparable) : ∃ ts word,
    Text.Spells n.format.toList ts word ∧ Parser.ReadsAtom .default ts n := by
  cases h with
  | number h => exact ⟨_, _, (written_number h).spells, Parser.readsAtom_number _⟩
  | identifier hw hk =>
    exact ⟨_, _, (written_identifier hw hk).spells, Parser.readsAtom_identifier _⟩
  | negativeNumber h =>
    exact ⟨_, _, ((written_number h).negative nofun).spells, Parser.readsAtom_negative_number _⟩
  | negativeIdentifier hw hk =>
    exact ⟨_, _, ((written_identifier hw hk).negative nofun).spells,
      Parser.readsAtom_negative_identifier _⟩

end Node

mutual

/-- The statements that can be spelled. A block has at most one statement. -/
inductive Node.Statement : Node → Prop where
  | expression {n} (h : Node.Expression n) : Node.Statement n
  | assignment {name value} (hw : Text.IsWord name) (hk : Keyword.ofWord? name = none)
      (hv : Node.Statement value) : Node.Statement (.assignment (some name) value)
  | condition {left right} (hl : Node.Comparable left) (hr : Node.Statement right) :
      Node.Statement (.condition left right)
  | ifElse {test body rest} (ht : Node.Statement test) (hb : ∀ n ∈ body, Node.Statement n)
      (hl : body.length ≤ 1) (hr : Chain.Branches rest) : Node.Statement (.ifElse test body rest)
  | whileLoop {test body} (ht : Node.Statement test) (hb : ∀ n ∈ body, Node.Statement n)
      (hl : body.length ≤ 1) : Node.Statement (.whileLoop test body)
  | loop {body} (hb : ∀ n ∈ body, Node.Statement n) (hl : body.length ≤ 1) :
      Node.Statement (.whileLoop .missing body)

/-- Branches with tests, and after them at most one without. -/
inductive Chain.Branches : Chain → Prop where
  | done : Chain.Branches .done
  | elifLink {test body rest} (ht : Node.Statement test) (hb : ∀ n ∈ body, Node.Statement n)
      (hl : body.length ≤ 1) (hr : Chain.Branches rest) : Chain.Branches (.link test body rest)
  | elseLink {body} (hb : ∀ n ∈ body, Node.Statement n) (hl : body.length ≤ 1) :
      Chain.Branches (.link .missing body .done)

end

/-- The tokens `ts` are scanned from the text of a statement, and read as the statement. -/
structure Node.Stands (n : Node) (ts : List Token) : Prop where
  spells : Text.Spells n.format.toList ts true
  reads : Parser.Reads .default ts .default n

/-- The tokens `ts` are scanned from the statements of a block, and read as these. -/
structure Node.StandIn (body : List Node) (ts : List Token) : Prop where
  separated : Text.Separated (Node.formatBlock (Node.formatAll body)).toList
  spells : Text.Spells (Node.formatBlock (Node.formatAll body)).toList (Token.inBraces ts) true
  reads : Parser.ReadsBody ts body

/-- The tokens `ts` are scanned from the text of a chain, and read as the chain. -/
structure Chain.Stands (rest : Chain) (ts : List Token) : Prop where
  separated : Text.Separated rest.format.toList
  spells : Text.Spells rest.format.toList ts true
  reads : Parser.ReadsChain ts rest

namespace Node

variable {n left right value test : Node} {body : List Node} {rest : Chain} {name : String}
  {ts ts' bs cs : List Token}

theorem Statement.ne_missing (h : n.Statement) : n ≠ .missing := by
  rintro rfl
  cases h with
  | expression h => cases h

theorem Written.stands (h : n.Written ts) : n.Stands ts := by
  refine ⟨h.spells.weaken, fun frames done => ?_⟩
  obtain ⟨s, hs, hc⟩ := h.reads .default (fun _ => h.binds) frames done
  exact ⟨s, hs, fun t ht hp => hc t ht (Parser.not_lt_of_not_default_lt hp _)⟩

theorem Stands.assignment (hw : Text.IsWord name) (hk : Keyword.ofWord? name = none)
    (h : value.Stands ts) : (Node.assignment (some name) value).Stands
      ({ kind := .identifier, text := name } :: { kind := .assign } :: ts) := by
  refine ⟨?_, h.reads.assignment⟩
  have hs := (Text.spells_identifier hw hk).space
    (Text.spells_assign.space h.spells)
  simpa using hs

theorem Stands.condition (hl : left.Comparable) (h : right.Stands ts) :
    ∃ ts', (Node.condition left right).Stands ts' := by
  obtain ⟨tl, word, hspells, hreads⟩ := hl.exists_tokens
  refine ⟨_, ?_, Parser.Reads.condition hreads h.reads⟩
  have hs := hspells.space (Text.spells_equals.space h.spells)
  simpa using hs

/-- An empty block is written with a blank between its braces. -/
theorem standIn_nil : StandIn [] [] :=
  ⟨Text.separated_cons rfl, (Text.spells_leftBrace.space Text.spells_rightBrace).blank.weaken,
    Parser.readsBody_nil⟩

theorem Stands.standIn (h : n.Stands ts) : StandIn [n] ts := by
  have htext : (formatBlock (formatAll [n])).toList =
      ' ' :: '\x7b' :: ' ' :: (n.format.toList ++ [' ', '\x7d']) := by
    simp [formatBlock]
  refine ⟨?_, ?_, h.reads.body⟩
  · rw [htext]
    exact Text.separated_cons rfl
  · rw [htext]
    exact (Text.spells_leftBrace.space (h.spells.space Text.spells_rightBrace)).blank.weaken

theorem exists_standIn (hb : ∀ n ∈ body, ∃ ts, n.Stands ts) (hl : body.length ≤ 1) :
    ∃ ts, StandIn body ts := by
  match body, hl with
  | [], _ => exact ⟨_, standIn_nil⟩
  | [n], _ =>
    obtain ⟨ts, hts⟩ := hb n List.mem_cons_self
    exact ⟨ts, hts.standIn⟩

end Node

theorem Owner.spells_token (owner : Owner) (word : String) (hw : owner.token.text = word) :
    Text.Spells word.toList [owner.token] true := by
  subst hw
  cases owner with
  | ifWord | elifWord | elseWord | whileWord => exact Text.spells_keyword rfl

section Branches

variable {test : Node} {body : List Node} {rest : Chain} {ts bs cs : List Token}

theorem Chain.stands_done : Chain.done.Stands [] :=
  ⟨Text.separated_nil, .nil, Parser.readsChain_nil⟩

/-- A test, its block and the branches after it, whatever word stands in front. -/
theorem Node.Stands.spells_branch (ht : test.Stands ts) (hb : Node.StandIn body bs)
    (hr : rest.Stands cs) :
    Text.Spells (test.format.toList ++
      ((Node.formatBlock (Node.formatAll body)).toList ++ rest.format.toList))
      (ts ++ (Token.inBraces bs ++ cs)) true :=
  ht.spells.append (hb.separated.append hr.separated) (hb.spells.append hr.separated hr.spells)

theorem Chain.Stands.elifLink (ht : test.Stands ts) (hm : test ≠ .missing)
    (hb : Node.StandIn body bs) (hr : rest.Stands cs) : (Chain.link test body rest).Stands
      (Owner.elifWord.token :: (ts ++ (Token.inBraces bs ++ cs))) := by
  have htext : (Chain.link test body rest).format.toList =
      ' ' :: ("elif".toList ++ ' ' :: (test.format.toList ++
        ((Node.formatBlock (Node.formatAll body)).toList ++ rest.format.toList))) := by
    cases test <;> simp_all
  refine ⟨?_, ?_, .elifLink ht.reads hb.reads hr.reads⟩
  · rw [htext]
    exact Text.separated_cons rfl
  · rw [htext]
    exact ((Owner.elifWord.spells_token _ rfl).space (ht.spells_branch hb hr)).blank

theorem Chain.Stands.elseLink (hb : Node.StandIn body bs) :
    (Chain.link .missing body .done).Stands (Owner.elseWord.token :: Token.inBraces bs) := by
  have htext : (Chain.link .missing body .done).format.toList =
      ' ' :: ("else".toList ++ (Node.formatBlock (Node.formatAll body)).toList) := by
    simp
  refine ⟨?_, ?_, .elseLink hb.reads⟩
  · rw [htext]
    exact Text.separated_cons rfl
  · rw [htext]
    exact ((Owner.elseWord.spells_token _ rfl).append hb.separated hb.spells).blank

theorem Node.Stands.ifElse (ht : test.Stands ts) (hb : Node.StandIn body bs) (hr : rest.Stands cs) :
    (Node.ifElse test body rest).Stands
      (Owner.ifWord.token :: (ts ++ (Token.inBraces bs ++ cs))) := by
  refine ⟨?_, ht.reads.ifElse hb.reads hr.reads⟩
  have hs := (Owner.ifWord.spells_token "if" rfl).space (ht.spells_branch hb hr)
  simpa using hs

theorem Node.Stands.whileLoop (ht : test.Stands ts) (hm : test ≠ .missing)
    (hb : Node.StandIn body bs) :
    (Node.whileLoop test body).Stands (Owner.whileWord.token :: (ts ++ Token.inBraces bs)) := by
  have htext : (Node.whileLoop test body).format.toList = "while".toList ++ ' ' ::
      (test.format.toList ++ (Node.formatBlock (Node.formatAll body)).toList) := by
    cases test <;> simp_all
  refine ⟨?_, ht.reads.whileLoop hb.reads⟩
  rw [htext]
  exact (Owner.whileWord.spells_token _ rfl).space (ht.spells.append hb.separated hb.spells)

theorem Node.StandIn.loop (hb : Node.StandIn body bs) :
    (Node.whileLoop .missing body).Stands (Owner.whileWord.token :: Token.inBraces bs) := by
  refine ⟨?_, .loop hb.reads⟩
  have hs := (Owner.whileWord.spells_token "while" rfl).append hb.separated hb.spells
  simpa using hs

end Branches

mutual

theorem Node.Statement.exists_tokens : ∀ {n : Node}, n.Statement → ∃ ts, n.Stands ts
  | _, .expression h => by
    obtain ⟨ts, hts⟩ := h.exists_written
    exact ⟨ts, hts.stands⟩
  | _, .assignment hw hk hv => by
    obtain ⟨ts, hts⟩ := hv.exists_tokens
    exact ⟨_, hts.assignment hw hk⟩
  | _, .condition hl hr => by
    obtain ⟨ts, hts⟩ := hr.exists_tokens
    exact hts.condition hl
  | _, .ifElse ht hb hl hr => by
    obtain ⟨ts, hts⟩ := ht.exists_tokens
    obtain ⟨bs, hbs⟩ := Node.exists_standIn (fun n hn => (hb n hn).exists_tokens) hl
    obtain ⟨cs, hcs⟩ := hr.exists_tokens
    exact ⟨_, hts.ifElse hbs hcs⟩
  | _, .whileLoop ht hb hl => by
    obtain ⟨ts, hts⟩ := ht.exists_tokens
    obtain ⟨bs, hbs⟩ := Node.exists_standIn (fun n hn => (hb n hn).exists_tokens) hl
    exact ⟨_, hts.whileLoop ht.ne_missing hbs⟩
  | _, .loop hb hl => by
    obtain ⟨bs, hbs⟩ := Node.exists_standIn (fun n hn => (hb n hn).exists_tokens) hl
    exact ⟨_, hbs.loop⟩

theorem Chain.Branches.exists_tokens : ∀ {rest : Chain}, rest.Branches → ∃ ts, rest.Stands ts
  | _, .done => ⟨_, Chain.stands_done⟩
  | _, .elifLink ht hb hl hr => by
    obtain ⟨ts, hts⟩ := ht.exists_tokens
    obtain ⟨bs, hbs⟩ := Node.exists_standIn (fun n hn => (hb n hn).exists_tokens) hl
    obtain ⟨cs, hcs⟩ := hr.exists_tokens
    exact ⟨_, .elifLink hts ht.ne_missing hbs hcs⟩
  | _, .elseLink hb hl => by
    obtain ⟨bs, hbs⟩ := Node.exists_standIn (fun n hn => (hb n hn).exists_tokens) hl
    exact ⟨_, .elseLink hbs⟩

end

/-- A statement that is printed and parsed is the same statement. -/
theorem Parser.parse_format {n : Node} (h : n.Statement) : parse 0 n.format = .ok [n] := by
  obtain ⟨ts, hts⟩ := h.exists_tokens
  refine hts.reads.parse_eq ?_
  have hs := hts.spells [] (Text.follows_of_separated Text.separated_nil)
  rw [List.append_nil, Tokens.plain_nil, ← Tokens.ofList.eq_1, ← Tokens.ofList_append,
    List.append_nil] at hs
  exact hs

/-- The tree of `if -x == 2.5 \x7b y = 3 * -(1 + 2.5) \x7d else \x7b while \x7b \x7d \x7d`. -/
theorem Parser.parse_format_chain :
    (Node.ifElse (.condition (.negative (.identifier "x")) (.number 2.5))
        [.assignment (some "y") (.binary .multiply (.number 3)
          (.negative (.binary .add (.number 1) (.number 2.5))))]
        (.link .missing [.whileLoop .missing []] .done)).Statement ∧
      parse 0 (Node.ifElse (.condition (.negative (.identifier "x")) (.number 2.5))
        [.assignment (some "y") (.binary .multiply (.number 3)
          (.negative (.binary .add (.number 1) (.number 2.5))))]
        (.link .missing [.whileLoop .missing []] .done)).format =
        .ok [.ifElse (.condition (.negative (.identifier "x")) (.number 2.5))
          [.assignment (some "y") (.binary .multiply (.number 3)
            (.negative (.binary .add (.number 1) (.number 2.5))))]
          (.link .missing [.whileLoop .missing []] .done)] := by
  have hx : Text.IsWord "x" := ⟨'x', [], rfl, rfl, nofun⟩
  have hy : Text.IsWord "y" := ⟨'y', [], rfl, rfl, nofun⟩
  have h1 : Number.IsUnsigned 1 := ⟨by decide +kernel, by decide +kernel⟩
  have h2 : Number.IsUnsigned 2.5 := ⟨by decide +kernel, by decide +kernel⟩
  have h3 : Number.IsUnsigned 3 := ⟨by decide +kernel, by decide +kernel⟩
  have hsum : (Node.binary .add (.number 1) (.number 2.5)).Expression :=
    .binary rfl (.number h1) (.number h2) (fun _ => rfl) (fun _ => rfl)
  have hproduct : (Node.binary .multiply (.number 3)
      (.negative (.binary .add (.number 1) (.number 2.5)))).Expression :=
    .binary rfl (.number h3) (.negative hsum fun _ => rfl) (fun _ => rfl) (fun _ => rfl)
  have hbody : (Node.assignment (some "y") (.binary .multiply (.number 3)
      (.negative (.binary .add (.number 1) (.number 2.5))))).Statement :=
    .assignment hy rfl (.expression hproduct)
  have hloop : (Node.whileLoop .missing []).Statement := .loop nofun (by decide)
  have h : (Node.ifElse (.condition (.negative (.identifier "x")) (.number 2.5))
        [.assignment (some "y") (.binary .multiply (.number 3)
          (.negative (.binary .add (.number 1) (.number 2.5))))]
        (.link .missing [.whileLoop .missing []] .done)).Statement :=
    .ifElse (.condition (.negativeIdentifier hx rfl) (.expression (.number h2)))
      (by simpa using hbody) (by simp) (.elseLink (by simpa using hloop) (by simp))
  exact ⟨h, parse_format h⟩

end Scriptlet
