import Scriptlet.Proofs.Parser.Shape
import Scriptlet.Proofs.Partition

/-!
# The parser keeps every token

Written out again from left to right, the trees of a text are its tokens: none is dropped, none is
read twice, and none changes its place. Only whitespace and parentheses leave no trace in a tree. The
invariant is that the open constructs, written out from the bottom of the stack to its top, are the
tokens that were read so far.

## Main definitions

* `Node.flatten`: the tokens of a tree, in the order of the text
* `Parser.State.consumed`: the tokens that a state has read

## Main statements

* `Parser.Move.consumed_eq`: a move reads nothing
* `Parser.Shift.consumed_eq`: a shift reads its token
* `Parser.flatten_parse`: the trees of a text are its tokens
-/

namespace Scriptlet

/-- The word of a branch after the first: without a test it is an `else`. -/
def Node.branchWord (test : Node) : Owner :=
  if test.isMissing then .elseWord else .elifWord

/-- A token that leaves a trace in a tree. -/
def Token.isVisible (t : Token) : Bool :=
  t.kind ∉ [.whitespace, .leftParen, .rightParen]

mutual

/-- The tokens of a tree in the order of the text, without parentheses. -/
@[simp] def Node.flatten : Node → List Token
  | .missing => []
  | .number value => [{ kind := .number, number := value }]
  | .negative operand => { kind := .subtract } :: operand.flatten
  | .literal text keyword => [{ kind := .literal, text, keyword }]
  | .identifier name => [{ kind := .identifier, text := name }]
  | .binary op left right => left.flatten ++ { kind := op } :: right.flatten
  | .assignment target value =>
    { kind := .identifier, text := target.getD "" } :: { kind := .assign } :: value.flatten
  | .condition left right => left.flatten ++ { kind := .equals } :: right.flatten
  | .ifElse test body rest =>
    Owner.ifWord.token :: (test.flatten ++ Token.inBraces (Node.flattenAll body) ++ rest.flatten)
  | .elseLink test body rest =>
    test.branchWord.token ::
      (test.flatten ++ Token.inBraces (Node.flattenAll body) ++ rest.flatten)
  | .whileLoop test body =>
    Owner.whileWord.token :: (test.flatten ++ Token.inBraces (Node.flattenAll body))
  | .endOfInput _ => []
termination_by structural n => n

/-- The tokens of several trees. -/
def Node.flattenAll : List Node → List Token
  | [] => []
  | n :: ns => n.flatten ++ Node.flattenAll ns
termination_by structural ns => ns

/-- The tokens of the branches after another one. -/
@[simp] def Chain.flatten : Chain → List Token
  | .done => []
  | .link test body rest =>
    test.branchWord.token ::
      (test.flatten ++ Token.inBraces (Node.flattenAll body) ++ rest.flatten)
termination_by structural c => c

end

@[simp] theorem Node.flattenAll_eq (ns : List Node) : Node.flattenAll ns = ns.flatMap Node.flatten := by
  induction ns with
  | nil => rfl
  | cons n ns ih => simp [Node.flattenAll, ih]

theorem Node.branchWord_of_proper {test : Node} (h : test.Proper) : test.branchWord = .elifWord := by
  simp [branchWord, Bool.eq_false_iff.mpr fun hm => h.ne_missing (isMissing_iff.mp hm)]

@[simp] theorem Node.branchWord_missing : Node.missing.branchWord = .elseWord := rfl

theorem Owner.Tests.branchWord {owner : Owner} {test : Node} (h : owner.Tests test)
    (ho : owner = .elifWord ∨ owner = .elseWord) : test.branchWord = owner := by
  rcases ho with rfl | rfl
  · cases h with
    | elifWord h => exact Node.branchWord_of_proper h
  · cases h
    rfl

theorem Token.Scanned.eq_owner {t : Token} (h : Scanned t) (owner : Owner)
    (hk : t.isKeyword owner.keyword) : t = owner.token := by
  obtain ⟨hl, hw⟩ := Token.isKeyword_iff.mp hk
  cases h with
  | @keyword word k h =>
    have hm := Keyword.mem_spellings h
    simp only at hw
    subst hw
    cases owner <;> simp_all [Keyword.spellings, Owner.keyword, Owner.token]
  | number | identifier => cases hl
  | quoted => cases owner <;> cases hw
  | symbol => cases owner <;> cases hw

namespace Parser

/-- The tokens of one branch of a conditional. -/
def branchTokens (owner : Owner) (branch : Node × List Node) : List Token :=
  owner.token :: (branch.1.flatten ++ Token.inBraces (branch.2.flatMap Node.flatten))

/-- The tokens of the branches of a conditional; the first one starts with `first`. -/
def linksTokens (first : Owner) : List (Node × List Node) → List Token
  | [] => []
  | link :: links =>
    branchTokens first link ++ links.flatMap fun link => branchTokens link.1.branchWord link

/-- The tokens of a head up to and with its own word. -/
def Head.tokens (head : Head) : List Token :=
  linksTokens head.first head.earlier ++ [head.owner.token]

/-- The tokens of a block that is open. -/
def Head.blockTokens (head : Head) (body : List Node) : List Token :=
  head.tokens ++ head.test.flatten ++ { kind := .leftBrace } :: body.flatMap Node.flatten

@[simp] def Pending.tokens : Pending → List Token
  | .operand left op => left.flatten ++ [{ kind := op }]
  | .negation => [{ kind := .subtract }]
  | .group => []
  | .value target => [{ kind := .identifier, text := target }, { kind := .assign }]
  | .comparand left => left.flatten ++ [{ kind := .equals }]
  | .test head => head.tokens
  | .statement head body => head.blockTokens body

/-- The tokens of a stack, whose innermost construct comes last in the text. -/
@[simp] def framesTokens : List Frame → List Token
  | [] => []
  | frame :: frames => framesTokens frames ++ frame.pending.tokens

@[simp] def Control.tokens : Control → List Token
  | .top | .start _ => []
  | .block _ head body => head.blockTokens body
  | .negated _ => [{ kind := .subtract }]
  | .named _ name => [{ kind := .identifier, text := name }]
  | .atom _ node | .complete _ node => node.flatten
  | .loop _ => [Owner.whileWord.token]
  | .opening _ head => head.tokens ++ head.test.flatten
  | .branches _ first _ links => linksTokens first links

/-- The tokens that were read so far. -/
def State.consumed (s : State) : List Token :=
  s.done.flatMap Node.flatten ++ framesTokens s.frames ++ s.control.tokens

variable {t : Token} {s u : State} {first last : Owner} {links : List (Node × List Node)}

theorem flatten_ofLinks (links : List (Node × List Node)) :
    (Chain.ofLinks links).flatten =
      links.flatMap fun link => branchTokens link.1.branchWord link := by
  induction links with
  | nil => rfl
  | cons link links ih => simp [Chain.ofLinks, branchTokens, ih]

/-- The word that a chain starts with can be read off its node. -/
theorem ProperLinks.flatten_chainNode (h : ProperLinks first last links) :
    (chainNode first links).flatten = linksTokens first links := by
  have key {test : Node} {body : List Node} {rest : List (Node × List Node)}
      (hf : first = .ifWord ∨ test.branchWord = first) :
      (chainNode first ((test, body) :: rest)).flatten =
        linksTokens first ((test, body) :: rest) := by
    by_cases hi : first = .ifWord
    · simp [chainNode, hi, linksTokens, branchTokens, flatten_ofLinks]
    · have hw : test.branchWord = first := by simpa [hi] using hf
      simp [chainNode, hi, linksTokens, branchTokens, flatten_ofLinks, hw]
  obtain ⟨⟨earlier, test, body, rfl, hc, ht, hb⟩, hw⟩ := h
  cases hc with
  | first =>
    refine key ?_
    cases ht with
    | ifWord => exact .inl rfl
    | elifWord h => exact .inr (Node.branchWord_of_proper h)
    | elseWord => exact .inr rfl
    | whileWord | loop => exact absurd rfl hw
  | later he hf ho hl =>
    obtain ⟨⟨test', body'⟩, rest, rfl⟩ := List.exists_cons_of_ne_nil he
    refine key ?_
    rcases hf with rfl | rfl
    · exact .inl rfl
    · exact .inr (Node.branchWord_of_proper (hl _ List.mem_cons_self).1)

theorem linksTokens_concat {earlier : List (Node × List Node)} {owner : Owner} {test : Node}
    (hc : Chained first earlier owner) (ht : owner.Tests test) (body : List Node) :
    linksTokens first (earlier ++ [(test, body)]) =
      linksTokens first earlier ++ branchTokens owner (test, body) := by
  cases hc with
  | first => simp [linksTokens]
  | later he hf ho hl =>
    obtain ⟨link, rest, rfl⟩ := List.exists_cons_of_ne_nil he
    simp [linksTokens, ht.branchWord ho]

theorem Move.consumed_eq (h : Move t s u) (hs : s.Proper) : u.consumed = s.consumed := by
  cases h with
  | chain =>
    have hf := ProperLinks.flatten_chainNode hs.control
    simp [State.consumed, hf]
  | name | atom | binary | negative | assignment | condition | last | fresh =>
    simp [State.consumed]
  | test | statement | inside | operand | loopTest | loopBody =>
    simp [State.consumed, Head.tokens, Head.blockTokens, Head.starting, linksTokens]

/-- A token that is an operator, a brace or a sign is nothing but its kind. -/
theorem visible_symbol (ht : Token.Scanned t)
    (hk : t.kind ∉ Lexeme.wordKinds ++ [.leftParen, .rightParen]) :
    [t].filter Token.isVisible = [{ kind := t.kind }] := by
  simp only [List.mem_append, not_or, Lexeme.wordKinds, List.mem_cons] at hk
  have he : t = { kind := t.kind } := ht.eq_symbol (by simp [Lexeme.wordKinds, hk])
  simp [Token.isVisible, hk, ← he]

theorem visible_owner (owner : Owner) : [owner.token].filter Token.isVisible = [owner.token] := by
  cases owner <;> rfl

/-- A loop is no branch of a chain. -/
theorem Head.Proper.tokens_of_while {head : Head} (h : head.Proper) (ho : head.owner = .whileWord) :
    head.tokens = [Owner.whileWord.token] := by
  rw [Head.tokens, h.earlier_of_while ho, ho]
  rfl

theorem Shift.consumed_eq (h : Shift t s u) (ht : Token.Scanned t) (hs : s.Proper) :
    u.consumed = s.consumed ++ [t].filter Token.isVisible := by
  cases h with
  | leftParen hk | rightParen hk =>
    simp [State.consumed, Token.isVisible, hk]
  | finish hk => exact absurd hk ht.kind_ne_endOfInput
  | number hk | negatedNumber hk =>
    have hv : t.isVisible := by simp [Token.isVisible, hk]
    have he := ht.eq_number hk
    simp [State.consumed, hv, ← he]
  | identifier hk | negatedIdentifier hk =>
    have hv : t.isVisible := by simp [Token.isVisible, hk]
    have he := ht.eq_identifier hk
    simp [State.consumed, hv, ← he]
  | literal hk =>
    have hv : t.isVisible := by simp [Token.isVisible, hk]
    have he := ht.eq_literal hk
    simp [State.consumed, hv, ← he]
  | minus hk | assign hk | equals hk | leftBrace hk =>
    rw [visible_symbol ht (by simp [hk, Lexeme.wordKinds]), hk]
    simp [State.consumed, Head.blockTokens]
  | operator hp =>
    have ha := isArithmetic_of_lt hp
    have hk : t.kind ∉ Lexeme.wordKinds ++ [.leftParen, .rightParen] := by
      intro hm
      simp only [Lexeme.wordKinds, List.cons_append, List.nil_append, List.mem_cons,
        List.not_mem_nil, or_false] at hm
      rcases hm with hk | hk | hk | hk | hk | hk | hk <;> simp [hk, Token.Kind.isArithmetic] at ha
    rw [visible_symbol ht hk]
    simp [State.consumed]
  | loopEnd hk ho =>
    rw [visible_symbol ht (by simp [hk, Lexeme.wordKinds]), hk]
    have hh := hs.control.1.tokens_of_while ho
    simp [State.consumed, Head.blockTokens, hh, Token.inBraces]
  | branchEnd hk ho =>
    rw [visible_symbol ht (by simp [hk, Lexeme.wordKinds]), hk]
    have hl := linksTokens_concat hs.control.1.chained hs.control.1.tests
    simp [State.consumed, Head.blockTokens, Head.tokens, hl, branchTokens, Token.inBraces]
  | @tested _ _ _ owner ho hk =>
    obtain rfl := ht.eq_owner owner hk
    rw [visible_owner]
    simp [State.consumed, Head.tokens, Head.starting, linksTokens]
  | elseWord hk =>
    obtain rfl := ht.eq_owner .elseWord hk
    rw [visible_owner]
    simp [State.consumed, Head.tokens, Head.starting, linksTokens]
  | whileWord hk =>
    obtain rfl := ht.eq_owner .whileWord hk
    rw [visible_owner]
    simp [State.consumed]
  | elifBranch hk =>
    obtain rfl := ht.eq_owner .elifWord hk
    rw [visible_owner]
    simp [State.consumed, Head.tokens]
  | elseBranch hk =>
    obtain rfl := ht.eq_owner .elseWord hk
    rw [visible_owner]
    simp [State.consumed, Head.tokens]

end Parser

/-- Asked again and again, the scanner answers with `ts` before the first end of the text. -/
structure Scanner.Yields (s : Scanner) (ts : List Token) : Prop where
  calls : ∃ line, (s.calls (ts.length + 1)).1 = ts.map some ++ [some (Token.endOfInput line)]
  notEnd : ∀ t ∈ ts, t.kind ≠ .endOfInput

theorem Scanner.yields_ofText {text : String} (h : (Tokens.ofText text).failure? = none) :
    (Scanner.ofText text).Yields (Tokens.ofText text).toList := by
  obtain ⟨last, ha⟩ := exists_answers_ofChars text.toList 1 h
  refine ⟨⟨last, ha.answers 1⟩, fun t ht => ?_⟩
  by_cases hw : t.kind = .whitespace
  · simp [hw]
  · have hm : t.bare ∈ (Tokens.plain text.toList).toList := by
      rw [Tokens.toList_plain]
      exact List.mem_map_of_mem (List.mem_filter.mpr ⟨ht, by simpa using hw⟩)
    exact (Tokens.scanned_of_mem_plain hm).kind_ne_endOfInput

theorem Tokens.filter_isVisible_plain (text : String) :
    (plain text.toList).toList.filter Token.isVisible =
      ((ofText text).toList.filter Token.isVisible).map Token.bare := by
  rw [toList_plain, List.filter_map, List.filter_filter]
  congr 1
  refine List.filter_congr fun t _ => ?_
  by_cases hw : t.kind = .whitespace <;> simp [Token.isVisible, hw]

/-- The trees of a text are the tokens that the scanner yields, up to whitespace and parentheses. -/
theorem Parser.flatten_parse {bound : Nat} {text : String} {nodes : List Node}
    (h : parse bound text = .ok nodes) :
    ∃ ts, (Scanner.ofText text).Yields ts ∧
      (ts.filter Token.isVisible).map Token.bare = nodes.flatMap Node.flatten := by
  have hfail : (Tokens.ofText text).failure? = none := by
    have hf := (exists_feedAll_of_run (parse_eq_ok_iff.mp h)).1
    simpa [Tokens.plain, Tokens.ofText, Tokens.failure?_significant_bare] using hf
  refine ⟨(Tokens.ofText text).toList, Scanner.yields_ofText hfail, ?_⟩
  obtain ⟨_, frames, hs, hc⟩ := parse_induction
    (P := fun ts _ s => s.Proper ∧ s.consumed = ts.filter Token.isVisible) h
    (fun t => Tokens.scanned_of_mem_plain) (fun _ => ⟨State.proper_initial, rfl⟩)
    (fun hm hs => ⟨hm.proper hs.1, by rw [hm.consumed_eq hs.1, hs.2]⟩)
    (fun ht hu hs _ => ⟨hu.proper ht hs.1, by rw [hu.consumed_eq ht hs.1, hs.2, List.filter_append]⟩)
  obtain rfl : frames = [] := hs.top rfl
  rw [← Tokens.filter_isVisible_plain, ← hc]
  simp [State.consumed]

theorem Parser.flatten_parse_chain :
    parse 4 "if - x == (y ) \x7b z = (\"a\") \x7d elif true \x7b \x7d else \x7b b \x7d" =
        .ok [.ifElse (.condition (.negative (.identifier "x")) (.identifier "y"))
          [.assignment (some "z") (.literal "a" .none)]
          (.link (.literal "true" .true) [] (.link .missing [.identifier "b"] .done))] ∧
      ∃ ts, (Scanner.ofText
          "if - x == (y ) \x7b z = (\"a\") \x7d elif true \x7b \x7d else \x7b b \x7d").Yields ts ∧
        (ts.filter Token.isVisible).map Token.bare =
          [Node.ifElse (.condition (.negative (.identifier "x")) (.identifier "y"))
            [.assignment (some "z") (.literal "a" .none)]
            (.link (.literal "true" .true) [] (.link .missing [.identifier "b"] .done))].flatMap
              Node.flatten := by
  have h : parse 4 "if - x == (y ) \x7b z = (\"a\") \x7d elif true \x7b \x7d else \x7b b \x7d" =
      .ok [.ifElse (.condition (.negative (.identifier "x")) (.identifier "y"))
        [.assignment (some "z") (.literal "a" .none)]
        (.link (.literal "true" .true) [] (.link .missing [.identifier "b"] .done))] := by
    cbv
  exact ⟨h, flatten_parse h⟩

end Scriptlet
