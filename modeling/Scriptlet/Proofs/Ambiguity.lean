import Scriptlet.Proofs.Formula

/-!
# What the text of a formula tells

A formula is printed with parentheses around operands that are operators, but never around equality
tests. So its text tells its tokens, with the parentheses that were printed, and no more. Two trees
with the same tokens differ in where an equality test ends: it may be taken by a minus, or be an
operand on the left of an operator, and neither is seen in the text. Among the formulas without such
tests, each is told by its text.

A word runs to the next blank, so a closing parenthesis that is printed after a name is scanned as part
of it. As long as no name ends with a parenthesis itself, these can be given back.

## Main definitions

* `Text.Prints`: a text whose tokens, with the parentheses given back, are the given ones
* `Node.printed`: the tokens of a formula, with the parentheses that are printed
* `Node.isClear`: no equality test is taken by a minus or stands on the left of an operator
* `Node.gather`: the tree in which a minus in front of an equality test belongs to its left side
* `Node.takesTest`: an equality test is the operand of a minus, or the left operand of an operator

## Main statements

* `Node.Formula.prints`: the tokens of the text of a formula
* `Node.Formula.format_eq_iff`: the text of a formula tells its tokens, and nothing else
* `Node.Formula.exists_readAs`: how the tokens of a clear formula are read
* `Node.Formula.exists_printed_eq`: a formula that takes a test shares its tokens with another one
* `Parser.format_eq_iff_printed_eq`: what the text of a formula tells
-/

namespace Scriptlet

/-! ## The tokens of a text -/

/-- A word without the closing parentheses at its end, and these parentheses. -/
def Token.release (t : Token) : List Token :=
  if t.kind = .identifier then
    { t with text := String.ofList (t.text.toList.rdropWhile (· == ')')) } ::
      List.replicate (t.text.toList.rtakeWhile (· == ')')).length { kind := .rightParen }
  else [t]

theorem Token.release_of_ne {t : Token} (h : t.kind ≠ .identifier) : t.release = [t] := by
  rw [release, if_neg h]

theorem Token.release_identifier {cs : List Char} (h : cs.getLast? ≠ some ')') (k : Nat) :
    ({ kind := .identifier, text := String.ofList (cs ++ List.replicate k ')') } : Token).release =
      { kind := .identifier, text := String.ofList cs } ::
        List.replicate k { kind := .rightParen } := by
  have hrow : ∀ c ∈ List.replicate k ')', (c == ')') = true := by
    intro c hc
    simp [List.eq_of_mem_replicate hc]
  have hhead : ∀ c ∈ cs.reverse.head?, (c == ')') = false := by
    intro c hc
    rw [List.head?_reverse] at hc
    rw [beq_eq_false_iff_ne]
    rintro rfl
    exact h hc
  have hsplit := Text.takeWhile_append_of_head (p := (· == ')')) (List.replicate k ')') cs.reverse hhead
  have hdrop : (cs ++ List.replicate k ')').rdropWhile (· == ')') = cs := by
    rw [List.rdropWhile, List.reverse_append, List.reverse_replicate, hsplit.2,
      List.dropWhile_eq_nil_iff.mpr hrow, List.nil_append, List.reverse_reverse]
  have htake : (cs ++ List.replicate k ')').rtakeWhile (· == ')') = List.replicate k ')' := by
    rw [List.rtakeWhile, List.reverse_append, List.reverse_replicate, hsplit.1,
      List.takeWhile_eq_self_iff.mpr hrow, List.reverse_replicate]
  simp [release, hdrop, htake]

/-- No reserved word ends with a parenthesis. -/
theorem Keyword.ofWord?_append_rightParens {name : String} (h : ofWord? name = Option.none)
    (k : Nat) : ofWord? (String.ofList (name.toList ++ List.replicate k ')')) = Option.none := by
  cases k with
  | zero => simpa using h
  | succ k =>
    rw [Option.eq_none_iff_forall_ne_some]
    intro keyword hk
    have hclean : ∀ s ∈ spellings, ')' ∉ s.1.toList := by decide
    exact hclean _ (mem_spellings hk) (by simp [List.replicate_succ])

namespace Text

/-- The tokens of a text, with the parentheses that words have swallowed given back. -/
def released (cs : List Char) : List Token := (Tokens.plain cs).toList.flatMap Token.release

/-- Closing parentheses, and then a blank or nothing. -/
def Closes (ds : List Char) : Prop :=
  ∃ k rest, ds = List.replicate k ')' ++ rest ∧ Separated rest

/-- Whatever closing parentheses follow, the tokens of the text are `ts`. -/
def Prints (cs : List Char) (ts : List Token) : Prop :=
  ∀ ds, Closes ds → released (cs ++ ds) = ts ++ released ds

variable {cs ds : List Char} {ts ts' : List Token} {word : Bool}

theorem closes_of_separated (h : Separated ds) : Closes ds := ⟨0, ds, rfl, h⟩

theorem Closes.rightParen (h : Closes ds) : Closes (')' :: ds) := by
  obtain ⟨k, rest, rfl, hr⟩ := h
  exact ⟨k + 1, rest, rfl, hr⟩

theorem Closes.follows (h : Closes ds) : Follows false ds := by
  obtain ⟨k, rest, rfl, hr⟩ := h
  cases k with
  | zero => exact follows_of_separated hr
  | succ k => simp [Follows, List.replicate_succ]

theorem released_nil : released [] = [] := by
  rw [released, Tokens.plain_nil]
  rfl

theorem released_symbol {c : Char} {k : Token.Kind} (hr : Lexeme.singleRule c = .symbol k)
    (hd : c.isDigit = false) (hl : c.isLower = false) (hq : c ≠ '"') (he : c ≠ '=')
    (hk : k ≠ .whitespace) (hi : k ≠ .identifier) (cs : List Char) :
    released (c :: cs) = { kind := k } :: released cs := by
  rw [released, Tokens.plain_symbol hr hd hl hq he hk, Tokens.toList, List.flatMap_cons,
    Token.release_of_ne hi]
  rfl

theorem released_rightParens (k : Nat) (ds : List Char) :
    released (List.replicate k ')' ++ ds) =
      List.replicate k { kind := .rightParen } ++ released ds := by
  induction k with
  | zero => rfl
  | succ k ih =>
    rw [List.replicate_succ, List.cons_append, released_symbol rfl rfl rfl (by decide) (by decide)
      (by decide) (by decide), ih, List.replicate_succ, List.cons_append]

theorem released_blank (cs : List Char) : released (' ' :: cs) = released cs := by
  rw [released, Tokens.plain_blank rfl, released]

theorem Spells.prints (h : Spells cs ts false) (ht : ∀ t ∈ ts, t.kind ≠ .identifier) :
    Prints cs ts := by
  intro ds hd
  have hself : ts.flatMap Token.release = ts := by
    rw [List.flatMap_congr fun t htm => Token.release_of_ne (ht t htm), List.flatMap_singleton']
  rw [released, h ds hd.follows, Tokens.toList_ofList_append, List.flatMap_append, hself, released]

theorem Prints.space (h : Prints cs ts) (h' : Prints ds ts') :
    Prints (cs ++ ' ' :: ds) (ts ++ ts') := by
  intro rest hr
  rw [List.append_assoc, List.cons_append, h _ (closes_of_separated (separated_cons rfl)),
    released_blank, h' rest hr, List.append_assoc]

theorem Prints.minus (h : Prints cs ts) : Prints ('-' :: cs) ({ kind := .subtract } :: ts) := by
  intro rest hr
  rw [List.cons_append, released_symbol rfl rfl rfl (by decide) (by decide) (by decide) (by decide),
    h rest hr, List.cons_append]

theorem Prints.group (h : Prints cs ts) : Prints ('(' :: (cs ++ [')']))
    ({ kind := .leftParen } :: (ts ++ [{ kind := .rightParen }])) := by
  intro rest hr
  have hclose := released_rightParens 1 rest
  rw [List.cons_append, released_symbol rfl rfl rfl (by decide) (by decide) (by decide) (by decide),
    List.append_assoc, List.singleton_append, h _ hr.rightParen]
  simpa using hclose

theorem prints_identifier {name : String} (hw : IsWord name) (hk : Keyword.ofWord? name = none)
    (hp : name.toList.getLast? ≠ some ')') :
    Prints name.toList [{ kind := .identifier, text := name }] := by
  rintro ds ⟨k, rest, rfl, hr⟩
  have hword : IsWord (String.ofList (name.toList ++ List.replicate k ')')) := by
    obtain ⟨c, cs, rfl, hc, hcs⟩ := hw
    refine ⟨c, cs ++ List.replicate k ')', by simp, hc, fun d hd => ?_⟩
    rcases List.mem_append.mp hd with hd | hd
    · exact hcs d hd
    · rw [List.eq_of_mem_replicate hd]
      rfl
  have hplain := plain_word hword hr
  rw [String.toList_ofList, Keyword.ofWord?_append_rightParens hk] at hplain
  rw [← List.append_assoc, released, hplain, Tokens.toList, List.flatMap_cons,
    Token.release_identifier hp, released_rightParens, String.ofList_toList]
  rfl

end Text

namespace Node

/-- The tokens of a formula, with the parentheses that are printed. -/
def printed : Node → List Token
  | number value => [{ kind := .number, number := value }]
  | identifier name => [{ kind := .identifier, text := name }]
  | negative operand => { kind := .subtract } :: inParens operand.isBinary operand.printed
  | binary op left right =>
    inParens (left.needsParens op.precedence false) left.printed ++
      { kind := op } :: inParens (right.needsParens op.precedence true) right.printed
  | condition left right => left.printed ++ { kind := .equals } :: right.printed
  | _ => []
termination_by structural n => n

variable {n : Node} {ts : List Token}

theorem prints_parenthesize {text : String} (needed : Bool) (h : Text.Prints text.toList ts) :
    Text.Prints (parenthesize needed text).toList (inParens needed ts) := by
  cases needed with
  | false => exact h
  | true => simpa [parenthesize, inParens] using h.group

/-- The tokens of the text of a formula. -/
theorem Formula.prints (h : n.Formula) : Text.Prints n.format.toList n.printed := by
  induction h with
  | number h => exact (written_number h).spells.prints (by simp)
  | identifier hw hk hp => exact Text.prints_identifier hw hk hp
  | negative h ih =>
    rw [format_negative, String.toList_append]
    exact (prints_parenthesize _ ih).minus
  | @binary op left right ho hl hr ihl ihr =>
    have hne : ∀ t ∈ [({ kind := op } : Token)], t.kind ≠ .identifier := by
      rw [List.forall_mem_singleton]
      rintro rfl
      cases ho
    have hop := (Text.spells_operator ho).prints hne
    have hall := (prints_parenthesize (left.needsParens op.precedence false) ihl).space
      (hop.space (prints_parenthesize (right.needsParens op.precedence true) ihr))
    simpa [printed] using hall
  | condition hc hl hr ihl ihr =>
    have hop := Text.spells_equals.prints (by simp)
    have hall := ihl.space (hop.space ihr)
    simpa [printed] using hall

theorem Formula.released_format (h : n.Formula) : Text.released n.format.toList = n.printed := by
  have hs := h.prints [] (Text.closes_of_separated Text.separated_nil)
  rwa [List.append_nil, Text.released_nil, List.append_nil] at hs

end Node

/-! ## The text of tokens -/

/-- The text of the tokens of a formula; the flag tells if an operand stands in front of them. -/
def Token.layOut : Bool → List Token → List Char
  | _, [] => []
  | true, t :: ts =>
    if t.kind = .rightParen then ')' :: layOut true ts
    else ' ' :: (t.kind.name.toList ++ ' ' :: layOut false ts)
  | false, t :: ts =>
    if t.kind = .subtract ∨ t.kind = .leftParen then t.kind.name.toList ++ layOut false ts
    else t.describe.toList ++ layOut true ts

namespace Node

variable {n m left right : Node} {ts xs : List Token} {op : Token.Kind} {needed : Bool}

theorem layOut_operator (h : op ≠ .rightParen) :
    Token.layOut true ({ kind := op } :: ts) =
      ' ' :: (op.name.toList ++ ' ' :: Token.layOut false ts) := by
  rw [Token.layOut, if_neg h]

theorem layOut_inParens {text : String}
    (h : ∀ ts, Token.layOut false (xs ++ ts) = text.toList ++ Token.layOut true ts) (ts : List Token) :
    Token.layOut false (inParens needed xs ++ ts) =
      (parenthesize needed text).toList ++ Token.layOut true ts := by
  cases needed with
  | false => exact h ts
  | true => simp [inParens, parenthesize, Token.layOut, h, Token.Kind.name]

theorem Formula.layOut_printed (h : n.Formula) (ts : List Token) :
    Token.layOut false (n.printed ++ ts) = n.format.toList ++ Token.layOut true ts := by
  induction h generalizing ts with
  | number h => simp [printed, Token.layOut, Token.describe]
  | identifier hw hk hp => simp [printed, Token.layOut, Token.describe]
  | negative h ih =>
    rw [format_negative, printed, List.cons_append, Token.layOut, if_pos (.inl rfl),
      layOut_inParens ih, String.toList_append, List.append_assoc]
    rfl
  | @binary op _ _ ho hl hr ihl ihr =>
    have hne : op ≠ .rightParen := by
      rintro rfl
      cases ho
    rw [printed, List.append_assoc, layOut_inParens ihl, List.cons_append, layOut_operator hne,
      layOut_inParens ihr]
    simp
  | condition hc hl hr ihl ihr =>
    rw [printed, List.append_assoc, ihl, List.cons_append, layOut_operator (by decide), ihr]
    simp [Token.Kind.name]

/-- The text of a formula tells its tokens, and nothing else. -/
theorem Formula.format_eq_iff (hn : n.Formula) (hm : m.Formula) :
    n.format = m.format ↔ n.printed = m.printed := by
  constructor
  · intro h
    rw [← hn.released_format, h, hm.released_format]
  · intro h
    have hl := hn.layOut_printed []
    rw [h, hm.layOut_printed [], List.append_cancel_right_eq] at hl
    exact String.toList_inj.mp hl.symm

/-! ## Reading the tokens of a clear formula -/

/-- Whether the last part of a formula is an equality test outside of parentheses. -/
def endsInTest : Node → Bool
  | condition .. => true
  | negative operand => !operand.isBinary && operand.endsInTest
  | binary op _ right => !right.needsParens op.precedence true && right.endsInTest
  | _ => false
termination_by structural n => n

/-- No operand of a minus, and no left operand of an operator, ends in an equality test. -/
def isClear : Node → Bool
  | negative operand => (operand.isBinary || !operand.endsInTest) && operand.isClear
  | binary op left right =>
    (left.needsParens op.precedence false || !left.endsInTest) && left.isClear && right.isClear
  | condition left right => left.isClear && right.isClear
  | _ => true
termination_by structural n => n

/-- What may come next after a formula: an equality test takes all operators. -/
def extent (n : Node) : Precedence := if n.endsInTest then .default else n.level

/-- The tree in which a minus in front of an equality test belongs to the left side of the test. -/
def gather : Node → Node
  | negative operand =>
    match operand.gather with
    | condition left right => condition (negative left) right
    | operand => negative operand
  | binary op left right => binary op left.gather right.gather
  | condition left right => condition left.gather right.gather
  | n => n
termination_by structural n => n

/--
The tokens of a clear formula `n` are read as `m`. This is `n`, unless a test in it begins with two
minuses: then the first of these is read as a minus in front of the test.
-/
structure ReadAs (n m : Node) : Prop where
  gather : m.gather = n
  reads : ∀ floor, (n.isBinary → floor < n.level) → Parser.Reads floor n.printed n.extent m
  negated : n.isBinary = false → n.endsInTest = false → ∀ floor level,
    Parser.Reads floor ({ kind := .subtract } :: n.printed) level (.negative m)
  tested : n.isComparand → ∀ {right read : Node} {level : Precedence}, read.gather = right →
    Parser.Reads .default right.printed level read → ∃ test : Node, test.gather = .condition n right ∧
      ∀ floor, Parser.Reads floor (n.printed ++ { kind := .equals } :: right.printed) .default test

theorem Formula.default_lt_level (h : n.Formula) (hb : n.isBinary) : .default < n.level := by
  cases h with
  | binary ho => exact (Token.Kind.isArithmetic_iff_lt_precedence _).mp ho
  | _ => cases hb

theorem Formula.level_eq (h : n.Formula) (hb : n.isBinary = false) (ht : n.endsInTest = false) :
    n.level = .negativeValue := by
  cases h with
  | number | identifier | negative => rfl
  | binary => cases hb
  | condition => cases ht

theorem exists_test_of_readsAtom {read : Node} {level : Precedence} (hm : m.gather = n)
    (ha : ∀ floor, Parser.ReadsAtom floor n.printed m) (hg : read.gather = right)
    (hr : Parser.Reads .default right.printed level read) : ∃ test : Node,
      test.gather = .condition n right ∧
        ∀ floor, Parser.Reads floor (n.printed ++ { kind := .equals } :: right.printed) .default test :=
  ⟨.condition m read, by rw [gather, hm, hg], fun floor => .condition (ha floor) hr⟩

theorem readAs_number (value : Float) : (number value).ReadAs (number value) where
  gather := rfl
  reads _ _ := Parser.reads_number value
  negated _ _ _ _ := Parser.reads_negative_number value
  tested _ := exists_test_of_readsAtom rfl fun _ => Parser.readsAtom_number value

theorem readAs_identifier (name : String) : (identifier name).ReadAs (identifier name) where
  gather := rfl
  reads _ _ := Parser.reads_identifier name
  negated _ _ _ _ := Parser.reads_negative_identifier name
  tested _ := exists_test_of_readsAtom rfl fun _ => Parser.readsAtom_identifier name

theorem gather_negative (h : m.gather = n) (hn : n.isBinary || !n.endsInTest) :
    (negative m).gather = negative n := by
  rw [gather, h]
  cases n with
  | condition => cases hn
  | _ => rfl

/-- Whatever stands under a minus, the minus is read first, and so is another one in front of it. -/
theorem readAs_negative (hm : (negative m).gather = negative n)
    (hreads : ∀ floor level, Parser.Reads floor (negative n).printed level (negative m))
    (ht : ∀ {right read : Node} {level : Precedence}, read.gather = right →
      Parser.Reads .default right.printed level read → ∃ test : Node,
        test.gather = .condition (negative n) right ∧ ∀ floor, Parser.Reads floor
          ((negative n).printed ++ { kind := .equals } :: right.printed) .default test) :
    (negative n).ReadAs (negative m) := by
  refine ⟨hm, fun floor _ => hreads floor _, fun _ _ floor level => ?_, fun _ => ht⟩
  exact (hreads .negativeValue level).negative (by simp) (by simp)

theorem ReadAs.negative_group (h : n.ReadAs m) (hn : n.Formula) (hb : n.isBinary) :
    (Node.negative n).ReadAs (Node.negative m) := by
  have hreads : Parser.Reads .default n.printed n.extent m :=
    h.reads .default fun hb => hn.default_lt_level hb
  have hp : (Node.negative n).printed = { kind := .subtract } :: { kind := .leftParen } ::
      (n.printed ++ [{ kind := .rightParen }]) := by
    rw [printed, hb]
    rfl
  have hm := gather_negative h.gather (by simp [hb])
  refine readAs_negative hm (fun floor level => ?_) ?_
  · rw [hp]
    exact hreads.group.negative (by simp) (by simp)
  · exact exists_test_of_readsAtom hm fun floor => hp ▸ hreads.readsAtom_negative_group

theorem ReadAs.negative (h : n.ReadAs m) (hn : n.Formula) (hb : n.isBinary = false)
    (ht : n.endsInTest = false) : (Node.negative n).ReadAs (Node.negative m) := by
  have hp : (Node.negative n).printed = { kind := .subtract } :: n.printed := by
    rw [printed, hb]
    rfl
  have hm := gather_negative h.gather (by simp [ht])
  refine readAs_negative hm (fun floor level => hp ▸ h.negated hb ht floor level) ?_
  cases hn with
  | @number value => exact exists_test_of_readsAtom rfl fun _ => Parser.readsAtom_negative_number value
  | @identifier name =>
    exact exists_test_of_readsAtom rfl fun _ => Parser.readsAtom_negative_identifier name
  | @negative operand =>
    -- The second minus is read with the test, and so the first one stands in front of it.
    intro right read level hg hr
    obtain ⟨test, htest, hall⟩ := h.tested rfl hg hr
    refine ⟨.negative test, by rw [Node.gather, htest], fun floor => ?_⟩
    exact (hall .negativeValue).negative (by simp) (by simp)
  | binary => cases hb
  | condition => cases ht

theorem ReadAs.exists_condition {m' : Node} (hl : left.ReadAs m) (hr : right.ReadAs m')
    (hc : left.isComparand) (hf : right.Formula) : ∃ test, (condition left right).ReadAs test := by
  have hright := hr.reads .default fun hb => hf.default_lt_level hb
  obtain ⟨test, hg, hreads⟩ := hl.tested hc hr.gather hright
  exact ⟨test, hg, fun floor _ => hreads floor, nofun, nofun⟩

theorem ReadAs.binary {m' : Node} (hl : left.ReadAs m) (hr : right.ReadAs m')
    (hlf : left.Formula) (hrf : right.Formula)
    (hc : left.needsParens op.precedence false || !left.endsInTest) :
    (binary op left right).ReadAs (binary op m m') := by
  refine ⟨by rw [Node.gather, hl.gather, hr.gather], fun floor hf => ?_, nofun, nofun⟩
  refine reads_operation hl.reads hr.reads hlf.default_lt_level hrf.default_lt_level (hf rfl) ?_
    (fun hn => ?_) fun hn => ?_
  · rw [extent]
    split
    · exact Precedence.not_lt_default _
    · simp [Node.level, Precedence.lt_iff_rank_lt]
  · have ht : left.endsInTest = false := by simpa [hn] using hc
    rw [extent, ht]
    exact not_level_lt_of_needsParens hn fun hb => hlf.level_eq hb ht
  · have hend : (Node.binary op left right).endsInTest = right.endsInTest := by
      simp [endsInTest, hn]
    rw [extent, extent, hend]
    cases ht : right.endsInTest with
    | true => exact Precedence.not_lt_default _
    | false =>
      exact not_level_lt_of_needsParens (needsParens_false_of_true hn) fun hb => hrf.level_eq hb ht

theorem Formula.exists_readAs (h : n.Formula) (hc : n.isClear) : ∃ m, n.ReadAs m := by
  induction h with
  | number => exact ⟨_, readAs_number _⟩
  | identifier => exact ⟨_, readAs_identifier _⟩
  | @negative operand h ih =>
    obtain ⟨ht, hc⟩ := (Bool.and_eq_true _ _).mp hc
    obtain ⟨m, hm⟩ := ih hc
    cases hb : operand.isBinary with
    | true => exact ⟨_, hm.negative_group h hb⟩
    | false => exact ⟨_, hm.negative h hb (by simpa [hb] using ht)⟩
  | binary _ hl hr ihl ihr =>
    obtain ⟨hcl, hcr⟩ := (Bool.and_eq_true _ _).mp hc
    obtain ⟨ht, hcl⟩ := (Bool.and_eq_true _ _).mp hcl
    obtain ⟨m, hm⟩ := ihl hcl
    obtain ⟨m', hm'⟩ := ihr hcr
    exact ⟨_, hm.binary hm' hl hr ht⟩
  | condition hleft hl hr ihl ihr =>
    obtain ⟨hcl, hcr⟩ := (Bool.and_eq_true _ _).mp hc
    obtain ⟨m, hm⟩ := ihl hcl
    obtain ⟨m', hm'⟩ := ihr hcr
    exact hm.exists_condition hm' hleft hr

/-- A clear formula is told by its tokens. -/
theorem Formula.eq_of_printed_eq (hn : n.Formula) (hm : m.Formula) (hcn : n.isClear)
    (hcm : m.isClear) (h : n.printed = m.printed) : n = m := by
  obtain ⟨n', hn'⟩ := hn.exists_readAs hcn
  obtain ⟨m', hm'⟩ := hm.exists_readAs hcm
  have hrun := (hn'.reads .default fun hb => hn.default_lt_level hb).run_eq
  have hrun' := (hm'.reads .default fun hb => hm.default_lt_level hb).run_eq
  have hread : n' = m' := by
    rw [h, hrun'] at hrun
    simpa using hrun.symm
  rw [← hn'.gather, ← hm'.gather, hread]

/-! ## Tests that are not told -/

/-- An operator and its right operand, taken by the last operand that binds less tightly. -/
def attach (op : Token.Kind) (n last : Node) : Node :=
  match n with
  | binary inner left right =>
    if inner.precedence < op.precedence then
      binary inner left
        (if right.needsParens inner.precedence true then binary op right last else right.attach op last)
    else binary op (binary inner left right) last
  | n => binary op n last
termination_by structural n

variable {last : Node}

theorem needsParens_binary_of_lt {inner : Token.Kind} (h : inner.precedence < op.precedence) :
    (binary op left right).needsParens inner.precedence true = false := by
  rw [Precedence.lt_iff_rank_lt] at h
  simp only [needsParens, Bool.true_and, Bool.or_eq_false_iff, decide_eq_false_iff_not,
    Precedence.lt_iff_rank_lt, beq_eq_false_iff_ne]
  refine ⟨by omega, ?_⟩
  intro he
  simp [he] at h

theorem needsParens_of_lt {inner : Token.Kind} (h : inner.precedence < op.precedence)
    (hn : n.needsParens inner.precedence true) : n.needsParens op.precedence false := by
  cases n with
  | binary =>
    simp only [needsParens, Bool.true_and, Bool.or_eq_true, decide_eq_true_eq, beq_iff_eq,
      Bool.false_and, Bool.or_false, Precedence.lt_iff_rank_lt] at h hn ⊢
    rcases hn with hn | hn
    · omega
    · rwa [hn]
  | _ => cases hn

theorem Formula.attach (h : n.Formula) (ho : op.isArithmetic) (hl : last.Formula) :
    (n.attach op last).Formula := by
  induction h with
  | number h => exact .binary ho (.number h) hl
  | identifier hw hk hp => exact .binary ho (.identifier hw hk hp) hl
  | negative h => exact .binary ho (.negative h) hl
  | condition hc h h' => exact .binary ho (.condition hc h h') hl
  | binary hi h h' _ ih =>
    rw [Node.attach]
    split
    · split
      · exact .binary hi h (.binary ho h' hl)
      · exact .binary hi h ih
    · exact .binary ho (.binary hi h h') hl

/-- The text goes on with the operator, and no parentheses are put around what was there before. -/
theorem Formula.printed_attach (h : n.Formula) :
    (n.attach op last).printed = n.printed ++
        { kind := op } :: inParens (last.needsParens op.precedence true) last.printed ∧
      ∀ {inner : Token.Kind}, inner.precedence < op.precedence →
        n.needsParens inner.precedence true = false →
          (n.attach op last).needsParens inner.precedence true = false := by
  induction h with
  | number | identifier | negative | condition => exact ⟨rfl, fun h _ => needsParens_binary_of_lt h⟩
  | @binary inner left right _ _ _ _ ih =>
    rw [Node.attach]
    split
    · rename_i hlt
      refine ⟨?_, fun _ hn => hn⟩
      split
      · rename_i hn
        have hp := needsParens_of_lt hlt hn
        simp [printed, needsParens_binary_of_lt hlt, hn, hp, inParens]
      · rename_i hn
        rw [Bool.not_eq_true] at hn
        simp [printed, ih.2 hlt hn, hn, ih.1, inParens]
    · rename_i hlt
      refine ⟨?_, fun h _ => needsParens_binary_of_lt h⟩
      have hn : (Node.binary inner left right).needsParens op.precedence false = false := by
        simpa [needsParens] using hlt
      rw [printed, hn]
      rfl

/-- A test that is the operand of a minus, or the left operand of an operator. -/
def takesTest : Node → Bool
  | negative (condition ..) | binary _ (condition ..) _ => true
  | _ => false

/-- Such a test is not told from one that ends where the whole formula does. -/
theorem Formula.exists_printed_eq (h : n.Formula) (ht : n.takesTest) :
    ∃ m : Node, m.Formula ∧ m ≠ n ∧ m.printed = n.printed := by
  cases h with
  | @negative operand h =>
    cases h with
    | @condition left right hc hl hr =>
      refine ⟨.condition (.negative left) right, .condition rfl (.negative hl) hr, by simp, ?_⟩
      cases hl with
      | binary => cases hc
      | _ => rfl
    | _ => cases ht
  | @binary op left last ho h hlast =>
    cases h with
    | @condition left right hc hl hr =>
      refine ⟨.condition left (right.attach op last), .condition hc hl (hr.attach ho hlast),
        by simp, ?_⟩
      simp [printed, hr.printed_attach.1, inParens, needsParens]
    | _ => cases ht
  | _ => cases ht

end Node

namespace Parser

/--
What the text of a formula tells. Two formulas that the parser builds have the same text if and only
if they have the same tokens, and no other clear formula has the text of a clear one. But a formula
that takes an equality test as an operand has the text of another formula that the parser builds.
-/
theorem format_eq_iff_printed_eq {bound : Nat} {text : String} {n : Node}
    (h : parse bound text = .ok [n]) (hf : n.isFormula) (hp : n.NoClosingName) :
    (∀ bound' text' m, parse bound' text' = .ok [m] → m.isFormula → m.NoClosingName →
      (n.format = m.format ↔ n.printed = m.printed) ∧
        (n.isClear → m.isClear → n.format = m.format → n = m)) ∧
    (n.takesTest → ∃ text' m, parse 0 text' = .ok [m] ∧ m.isFormula ∧ m.NoClosingName ∧ m ≠ n ∧
      m.format = n.format) := by
  have hn := formula_of_parse h List.mem_cons_self hf hp
  refine ⟨fun bound' text' m h' hf' hp' => ?_, fun ht => ?_⟩
  · have hm := formula_of_parse h' List.mem_cons_self hf' hp'
    refine ⟨hn.format_eq_iff hm, fun hcn hcm he => ?_⟩
    exact hn.eq_of_printed_eq hm hcn hcm ((hn.format_eq_iff hm).mp he)
  · obtain ⟨m, hm, hne, hprinted⟩ := hn.exists_printed_eq ht
    obtain ⟨text', hparse⟩ := hm.exists_parse
    exact ⟨text', m, hparse, hm.isFormula, hm.noClosingName, hne, (hm.format_eq_iff hn).mpr hprinted⟩

/-- A sum with a test on its left is not told from a test of a sum; a clear formula is told. -/
theorem format_eq_iff_printed_eq_names :
    (parse 0 "(a == b ) + c" =
        .ok [.binary .add (.condition (.identifier "a") (.identifier "b")) (.identifier "c")] ∧
      ∃ text m, parse 0 text = .ok [m] ∧ m.isFormula ∧ m.NoClosingName ∧
        m ≠ .binary .add (.condition (.identifier "a") (.identifier "b")) (.identifier "c") ∧
        m.format = "a == b + c") ∧
    (parse 0 "-(a + b ) * c == -d" =
        .ok [.binary .multiply (.negative (.binary .add (.identifier "a") (.identifier "b")))
          (.condition (.identifier "c") (.negative (.identifier "d")))] ∧
      ∀ bound text m, parse bound text = .ok [m] → m.isFormula → m.NoClosingName → m.isClear →
        m.format = "-(a + b) * c == -d" →
        m = .binary .multiply (.negative (.binary .add (.identifier "a") (.identifier "b")))
          (.condition (.identifier "c") (.negative (.identifier "d")))) := by
  have hsum : parse 0 "(a == b ) + c" =
      .ok [.binary .add (.condition (.identifier "a") (.identifier "b")) (.identifier "c")] := by
    cbv
  have hclear : parse 0 "-(a + b ) * c == -d" =
      .ok [.binary .multiply (.negative (.binary .add (.identifier "a") (.identifier "b")))
        (.condition (.identifier "c") (.negative (.identifier "d")))] := by
    cbv
  refine ⟨⟨hsum, (format_eq_iff_printed_eq hsum rfl ?_).2 rfl⟩, hclear, ?_⟩
  · simp [Node.NoClosingName]
  · intro bound text m h hf hp hc he
    have hnames : Node.NoClosingName (.binary .multiply
        (.negative (.binary .add (.identifier "a") (.identifier "b")))
        (.condition (.identifier "c") (.negative (.identifier "d")))) := by
      simp [Node.NoClosingName]
    exact (((format_eq_iff_printed_eq hclear rfl hnames).1 bound text m h hf hp).2 rfl hc he.symm).symm

end Parser

end Scriptlet
