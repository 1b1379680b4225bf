import Scriptlet.Proofs.Layout

/-!
# Reading one tree

The parser is a machine, but what it reads can be said construct by construct. The judgement here
says that from the start of an expression some tokens are read as a node: the next token completes
it, unless it binds tighter than the node does. Each construct has one rule, and the rules are used
like those of a grammar.

## Main definitions

* `Parser.Reads`: from the start of an expression, tokens are read as a node
* `Parser.ReadsBody`, `Parser.ReadsChain`: the same for what stands in a block, and for the branches
  of a conditional after the first

## Main statements

* `Parser.Reads.parse_eq`: a text whose tokens are read as a node has just that node
* `Parser.Reads.binary`, `Parser.Reads.negative`, `Parser.Reads.group`: the rules for expressions
* `Parser.Reads.assignment`, `Parser.Reads.condition`, `Parser.Reads.ifElse`,
  `Parser.Reads.whileLoop`: the rules for statements
-/

namespace Scriptlet

/-- No token binds tighter than a unary minus. -/
theorem Token.not_negativeValue_lt (t : Token) : ¬ Precedence.negativeValue < t.precedence := by
  rw [Precedence.lt_iff_rank_lt, Token.precedence]
  cases t.kind <;> simp [Token.Kind.precedence, Precedence.rank]

namespace Parser

/--
The tokens `ts` are read as `node` where the operators have to bind tighter than `floor`. The token
after them completes the node, unless it goes on with its last word or binds tighter than `level`.
-/
def Reads (floor : Precedence) (ts : List Token) (level : Precedence) (node : Node) : Prop :=
  ∀ frames done, ∃ s, feedAll 0 ⟨.start floor, frames, done⟩ ts = .ok s ∧
    ∀ t, Ends t → ¬ level < t.precedence → Moves t s ⟨.complete floor node, frames, done⟩

variable {s u v : State} {t : Token} {ts ts' : List Token} {floor level level' : Precedence}
  {node : Node} {frames : List Frame} {done : List Node}

theorem feedAll_of_moves (hm : Moves t s u) : feedAll 0 s (t :: ts) = feedAll 0 u (t :: ts) := by
  simp only [feedAll, hm.feed_eq]

theorem feedAll_of_shift (hs : Shift t s u) : feedAll 0 s (t :: ts) = feedAll 0 u ts :=
  feedAll_cons_of_ok hs.feed_eq

/-- The token after a node that was read is read where the node is complete. -/
theorem Reads.feedAll_append (h : Reads floor ts level node) (ht : Ends t)
    (hl : ¬ level < t.precedence) (hm : Moves t ⟨.complete floor node, frames, done⟩ v)
    (hs : Shift t v u) :
    feedAll 0 ⟨.start floor, frames, done⟩ (ts ++ t :: ts') = feedAll 0 u ts' := by
  obtain ⟨w, hw, hc⟩ := h frames done
  rw [Parser.feedAll_append hw, feedAll_of_moves ((hc t ht hl).trans hm), feedAll_of_shift hs]

/-- No expression starts with a brace or with the end. -/
theorem Reads.exists_cons (h : Reads floor ts level node) :
    ∃ t ts', ts = t :: ts' ∧ t.kind ∉ [.endOfInput, .leftBrace, .rightBrace] := by
  obtain ⟨s, hs, hc⟩ := h [] []
  cases ts with
  | nil =>
    -- No move leaves the start of an expression.
    cases hs
    have hm := hc { kind := .rightParen } ⟨by simp, by simp, by simp⟩ (Precedence.not_lt_default _)
    rcases hm.cases_head with heq | ⟨u, hmove, -⟩
    · simp at heq
    · cases hmove
  | cons t ts =>
    refine ⟨t, ts, rfl, fun hk => ?_⟩
    simp only [List.mem_cons, List.not_mem_nil, or_false] at hk
    rcases hk with hk | hk | hk <;> simp [feedAll, feed, startWith, hk] at hs

/-- Tokens that are read as a node are just that node. -/
theorem Reads.run_eq (h : Reads .default ts level node) :
    run 0 .initial (Tokens.ofList ts) = .ok [node] := by
  obtain ⟨s, hs, hc⟩ := h [] []
  obtain ⟨t, ts', rfl, hk⟩ := h.exists_cons
  have hend : Ends (Token.endOfInput 0) := by
    constructor <;> simp [Token.endOfInput]
  have hdefault : ∀ p : Precedence, ¬ p < (Token.endOfInput 0).precedence :=
    Precedence.not_lt_default
  have hfeed : feedAll 0 State.initial (t :: ts') = .ok s := by
    rw [State.initial, feedAll_of_moves (.single (.fresh fun he => hk (by simp [he]))), hs]
  have hlast : Moves (Token.endOfInput 0) s ⟨.top, [], [node]⟩ :=
    (hc _ hend (hdefault _)).tail (.last (hdefault _))
  have hfinish : Shift (Token.endOfInput 0) ⟨.top, [], [node]⟩ ⟨.top, [], [node]⟩ := .finish rfl
  rw [← List.append_nil (t :: ts'), Tokens.ofList_append, run_ofList_append, hfeed]
  simp only [Tokens.ofList, run, hlast.feed_eq, hfinish.feed_eq]

/-- A text whose tokens are read as a node has just that node. -/
theorem Reads.parse_eq (h : Reads .default ts level node) {text : String}
    (ht : Tokens.plain text.toList = Tokens.ofList ts) : parse 0 text = .ok [node] := by
  rw [parse_eq_ok_iff, ht, h.run_eq]

/-! ## Operands -/

/-- A token that is an atom by itself. -/
theorem reads_of_shift
    (h : ∀ frames done, Shift t ⟨.start floor, frames, done⟩ ⟨.atom floor node, frames, done⟩) :
    Reads floor [t] level node := by
  intro frames done
  exact ⟨_, feedAll_of_shift (h frames done), fun t ht _ => ht.moves_atom⟩

theorem reads_number (value : Float) :
    Reads floor [{ kind := .number, number := value }] level (.number value) :=
  reads_of_shift fun _ _ => .number rfl

theorem reads_literal {text : String} {keyword : Keyword}
    (ho : ∀ owner : Owner, keyword ≠ owner.keyword) :
    Reads floor [{ kind := .literal, text, keyword }] level (.literal text keyword) :=
  reads_of_shift fun _ _ => .literal rfl ho

theorem reads_identifier (name : String) :
    Reads floor [{ kind := .identifier, text := name }] level (.identifier name) := by
  intro frames done
  exact ⟨_, feedAll_of_shift (.identifier rfl), fun t ht _ => ht.moves_named⟩

theorem reads_negative_of_shift
    (h : ∀ frames done, Shift t ⟨.negated floor, frames, done⟩ ⟨.atom floor node, frames, done⟩) :
    Reads floor [{ kind := .subtract }, t] level node := by
  intro frames done
  refine ⟨⟨.atom floor node, frames, done⟩, ?_, fun t ht _ => ht.moves_atom⟩
  rw [feedAll_of_shift (.minus rfl), feedAll_of_shift (h frames done)]
  rfl

/-- A minus in front of a number or a name is part of the atom. -/
theorem reads_negative_number (value : Float) :
    Reads floor [{ kind := .subtract }, { kind := .number, number := value }] level
      (.negative (.number value)) :=
  reads_negative_of_shift fun _ _ => .negatedNumber rfl

theorem reads_negative_identifier (name : String) :
    Reads floor [{ kind := .subtract }, { kind := .identifier, text := name }] level
      (.negative (.identifier name)) :=
  reads_negative_of_shift fun _ _ => .negatedIdentifier rfl

/-- In front of anything else a minus opens a frame of its own. -/
theorem Reads.negative (h : Reads .negativeValue (t :: ts) level node) (hn : t.kind ≠ .number)
    (hi : t.kind ≠ .identifier) :
    Reads floor ({ kind := .subtract } :: t :: ts) level (.negative node) := by
  intro frames done
  obtain ⟨s, hs, hc⟩ := h (⟨.negation, floor⟩ :: frames) done
  refine ⟨s, ?_, fun t' ht hl => ?_⟩
  · rw [feedAll_of_shift (.minus rfl), feedAll_of_moves (.single (.operand hn hi)), hs]
  · refine (hc t' ht hl).trans (.head (.negative (t'.not_negativeValue_lt)) ?_)
    exact ht.moves_atom

/-! ## Operators and parentheses -/

theorem ends_of_isArithmetic {op : Token.Kind} (h : op.isArithmetic) : Ends { kind := op } := by
  constructor <;> rintro rfl <;> simp [Token.Kind.isArithmetic] at h

/-- The tree is complete before whatever completes its right operand and the operator itself. -/
theorem Reads.binary_upTo {op : Token.Kind} {left right : Node} {outer : Precedence}
    (hl : Reads floor ts level left) (hr : Reads op.precedence ts' level' right)
    (hf : floor < op.precedence) (hlevel : ¬ level < op.precedence) (ho : ¬ op.precedence < outer)
    (hlevel' : ¬ level' < outer) :
    Reads floor (ts ++ { kind := op } :: ts') outer (.binary op left right) := by
  intro frames done
  obtain ⟨s, hs, hc⟩ := hr (⟨.operand left op, floor⟩ :: frames) done
  have ha : op.isArithmetic := isArithmetic_of_lt (t := { kind := op }) hf
  refine ⟨s, ?_, fun t ht hp => ?_⟩
  · exact (hl.feedAll_append (ends_of_isArithmetic ha) hlevel .refl (.operator hf)).trans hs
  · simp only [Precedence.lt_iff_rank_lt] at ho hlevel' hp
    have hp' : ¬ level' < t.precedence := by
      rw [Precedence.lt_iff_rank_lt]
      omega
    have hop : ¬ op.precedence < t.precedence := by
      rw [Precedence.lt_iff_rank_lt]
      omega
    exact (hc t ht hp').tail (.binary hop)

/-- The left operand binds at least as tightly as the operator, and the right one too. -/
theorem Reads.binary {op : Token.Kind} {left right : Node} (hl : Reads floor ts level left)
    (hr : Reads op.precedence ts' level' right) (hf : floor < op.precedence)
    (hlevel : ¬ level < op.precedence) (hlevel' : ¬ level' < op.precedence) :
    Reads floor (ts ++ { kind := op } :: ts') op.precedence (.binary op left right) :=
  hl.binary_upTo hr hf hlevel (by simp [Precedence.lt_iff_rank_lt]) hlevel'

theorem Reads.group (h : Reads .default ts level node) :
    Reads floor ({ kind := .leftParen } :: (ts ++ [{ kind := .rightParen }])) level' node := by
  intro frames done
  refine ⟨⟨.complete floor node, frames, done⟩, ?_, fun _ _ _ => .refl⟩
  rw [feedAll_of_shift (.leftParen rfl),
    h.feedAll_append ⟨by simp, by simp, by simp⟩ (Precedence.not_lt_default _) .refl (.rightParen rfl)]
  rfl

/-! ## Assignments and equality tests -/

/-- What ends only before a closing token ends there whatever is in front of it. -/
theorem not_lt_of_not_default_lt (h : ¬ Precedence.default < t.precedence) (level : Precedence) :
    ¬ level < t.precedence := by
  simp only [Precedence.lt_iff_rank_lt, Precedence.rank] at h ⊢
  omega

theorem Reads.assignment {name : String} {value : Node} (h : Reads .default ts level value) :
    Reads floor ({ kind := .identifier, text := name } :: { kind := .assign } :: ts) .default
      (.assignment (some name) value) := by
  intro frames done
  obtain ⟨s, hs, hc⟩ := h (⟨.value name, floor⟩ :: frames) done
  refine ⟨s, ?_, fun t ht hp => ?_⟩
  · rw [feedAll_of_shift (.identifier rfl), feedAll_of_shift (.assign rfl), hs]
  · exact (hc t ht (not_lt_of_not_default_lt hp level)).tail (.assignment hp)

/-- The tokens `ts` are an atom in front of an equality sign. -/
def ReadsAtom (floor : Precedence) (ts : List Token) (node : Node) : Prop :=
  ∀ frames done, ∃ s, feedAll 0 ⟨.start floor, frames, done⟩ ts = .ok s ∧
    Moves { kind := .equals } s ⟨.atom floor node, frames, done⟩

theorem readsAtom_number (value : Float) :
    ReadsAtom floor [{ kind := .number, number := value }] (.number value) :=
  fun _ _ => ⟨_, feedAll_of_shift (.number rfl), .refl⟩

theorem readsAtom_identifier (name : String) :
    ReadsAtom floor [{ kind := .identifier, text := name }] (.identifier name) :=
  fun _ _ => ⟨_, feedAll_of_shift (.identifier rfl), .single (.name (by simp))⟩

theorem readsAtom_negative_number (value : Float) :
    ReadsAtom floor [{ kind := .subtract }, { kind := .number, number := value }]
      (.negative (.number value)) := by
  intro frames done
  refine ⟨_, ?_, .refl⟩
  rw [feedAll_of_shift (.minus rfl), feedAll_of_shift (.negatedNumber rfl)]
  rfl

theorem readsAtom_negative_identifier (name : String) :
    ReadsAtom floor [{ kind := .subtract }, { kind := .identifier, text := name }]
      (.negative (.identifier name)) := by
  intro frames done
  refine ⟨_, ?_, .refl⟩
  rw [feedAll_of_shift (.minus rfl), feedAll_of_shift (.negatedIdentifier rfl)]
  rfl

/-- A minus in front of parentheses is part of the left side of an equality test. -/
theorem Reads.readsAtom_negative_group (h : Reads .default ts level node) :
    ReadsAtom floor
      ({ kind := .subtract } :: { kind := .leftParen } :: (ts ++ [{ kind := .rightParen }]))
      (.negative node) := by
  intro frames done
  refine ⟨⟨.complete .negativeValue node, ⟨.negation, floor⟩ :: frames, done⟩, ?_,
    .single (.negative (Token.not_negativeValue_lt _))⟩
  rw [feedAll_of_shift (.minus rfl), feedAll_of_moves (.single (.operand (by simp) (by simp))),
    feedAll_of_shift (.leftParen rfl), h.feedAll_append ⟨by simp, by simp, by simp⟩
      (Precedence.not_lt_default _) .refl (.rightParen rfl)]
  rfl

theorem Reads.condition {left right : Node} (hl : ReadsAtom floor ts left)
    (hr : Reads .default ts' level right) :
    Reads floor (ts ++ { kind := .equals } :: ts') .default (.condition left right) := by
  intro frames done
  obtain ⟨u, hu, hm⟩ := hl frames done
  obtain ⟨s, hs, hc⟩ := hr (⟨.comparand left, floor⟩ :: frames) done
  refine ⟨s, ?_, fun t ht hp => ?_⟩
  · rw [Parser.feedAll_append hu, feedAll_of_moves hm, feedAll_of_shift (.equals rfl), hs]
  · exact (hc t ht (not_lt_of_not_default_lt hp level)).tail (.condition hp)

/-! ## Blocks -/

/-- The tokens `ts` are the statements of a block, which a closing brace ends. -/
def ReadsBody (ts : List Token) (body : List Node) : Prop :=
  ∀ floor head frames done, ∃ s, feedAll 0 ⟨.block floor head [], frames, done⟩ ts = .ok s ∧
    Moves { kind := .rightBrace } s ⟨.block floor head body, frames, done⟩

theorem readsBody_nil : ReadsBody [] [] :=
  fun _ _ _ _ => ⟨_, rfl, .refl⟩

theorem Reads.body (h : Reads .default ts level node) : ReadsBody ts [node] := by
  intro floor head frames done
  obtain ⟨t, ts', rfl, hk⟩ := h.exists_cons
  obtain ⟨s, hs, hc⟩ := h (⟨.statement head [], floor⟩ :: frames) done
  have hinside : Move t ⟨.block floor head [], frames, done⟩
      ⟨.start .default, ⟨.statement head [], floor⟩ :: frames, done⟩ :=
    .inside (fun he => hk (by simp [he])) fun he => hk (by simp [he])
  refine ⟨s, ?_, ?_⟩
  · rw [feedAll_of_moves (.single hinside), hs]
  · have hcomplete := hc { kind := .rightBrace } ⟨by simp, by simp, by simp⟩
      (Precedence.not_lt_default _)
    exact hcomplete.tail (.statement (Precedence.not_lt_default _))

variable {head : Head} {body : List Node} {bs : List Token} {test : Node}

theorem ReadsBody.feedAll_inBraces (h : ReadsBody bs body)
    (hs : Shift { kind := .rightBrace } ⟨.block floor head body, frames, done⟩ u) :
    feedAll 0 ⟨.opening floor head, frames, done⟩ (Token.inBraces bs ++ ts) = feedAll 0 u ts := by
  obtain ⟨v, hv, hm⟩ := h floor head frames done
  rw [Token.inBraces, List.cons_append, List.append_assoc, feedAll_of_shift (.leftBrace rfl),
    Parser.feedAll_append hv, List.singleton_append, feedAll_of_moves hm, feedAll_of_shift hs]

/-- A test and the block that it guards. -/
theorem Reads.feedAll_test (h : Reads .default ts level test) (hb : ReadsBody bs body)
    (hs : Shift { kind := .rightBrace } ⟨.block floor { head with test } body, frames, done⟩ u) :
    feedAll 0 ⟨.start .default, ⟨.test head, floor⟩ :: frames, done⟩
      (ts ++ (Token.inBraces bs ++ ts')) = feedAll 0 u ts' := by
  have hend : Ends { kind := .leftBrace } := ⟨by simp, by simp, by simp⟩
  have hlow (p : Precedence) : ¬ p < ({ kind := .leftBrace } : Token).precedence :=
    Precedence.not_lt_default p
  obtain ⟨v, hv, hc⟩ := h (⟨.test head, floor⟩ :: frames) done
  have hopen := (hc _ hend (hlow _)).tail (.test (hlow _))
  rw [Parser.feedAll_append hv, ← hb.feedAll_inBraces hs, Token.inBraces, List.cons_append]
  exact feedAll_of_moves hopen

/-! ## Conditionals and loops -/

/-- The tokens `ts` are branches that follow those which were read. -/
def ReadsChain (ts : List Token) (rest : Chain) : Prop :=
  ∀ floor first last earlier frames done, last ≠ .elseWord → ∃ last' links,
    rest = Chain.ofLinks links ∧
      feedAll 0 ⟨.branches floor first last earlier, frames, done⟩ ts =
        .ok ⟨.branches floor first last' (earlier ++ links), frames, done⟩

theorem readsChain_nil : ReadsChain [] .done := by
  intro floor first last earlier frames done _
  exact ⟨last, [], rfl, by simp [feedAll]⟩

theorem ReadsChain.elifLink {rest : Chain} {cs : List Token} (ht : Reads .default ts level test)
    (hb : ReadsBody bs body) (hr : ReadsChain cs rest) :
    ReadsChain (Owner.elifWord.token :: (ts ++ (Token.inBraces bs ++ cs)))
      (.link test body rest) := by
  intro floor first last earlier frames done hlast
  obtain ⟨last', links, rfl, hlinks⟩ :=
    hr floor first .elifWord (earlier ++ [(test, body)]) frames done (by simp)
  refine ⟨last', (test, body) :: links, rfl, ?_⟩
  rw [feedAll_of_shift (.elifBranch rfl hlast), ht.feedAll_test hb (.branchEnd rfl (by simp)), hlinks]
  simp

theorem ReadsChain.elseLink (hb : ReadsBody bs body) :
    ReadsChain (Owner.elseWord.token :: Token.inBraces bs) (.link .missing body .done) := by
  intro floor first last earlier frames done hlast
  refine ⟨.elseWord, [(.missing, body)], rfl, ?_⟩
  rw [feedAll_of_shift (.elseBranch rfl hlast), ← List.append_nil (Token.inBraces bs),
    hb.feedAll_inBraces (.branchEnd rfl (by simp))]
  rfl

theorem Reads.ifElse {rest : Chain} {cs : List Token} (ht : Reads .default ts level test)
    (hb : ReadsBody bs body) (hr : ReadsChain cs rest) :
    Reads floor (Owner.ifWord.token :: (ts ++ (Token.inBraces bs ++ cs))) level'
      (.ifElse test body rest) := by
  intro frames done
  obtain ⟨last, links, rfl, hlinks⟩ :=
    hr floor .ifWord .ifWord [(test, body)] frames done (by simp)
  refine ⟨⟨.branches floor .ifWord last ((test, body) :: links), frames, done⟩, ?_,
    fun t ht _ => ht.moves_branches⟩
  · rw [feedAll_of_shift (.tested (.inl rfl) (Owner.isKeyword_token .ifWord)),
      ht.feedAll_test hb (.branchEnd rfl (by simp [Head.starting]))]
    exact hlinks

theorem Reads.whileLoop (ht : Reads .default ts level test) (hb : ReadsBody bs body) :
    Reads floor (Owner.whileWord.token :: (ts ++ Token.inBraces bs)) level'
      (.whileLoop test body) := by
  intro frames done
  refine ⟨⟨.complete floor (.whileLoop test body), frames, done⟩, ?_, fun _ _ _ => .refl⟩
  obtain ⟨t, ts', rfl, hk⟩ := ht.exists_cons
  have htest : feedAll 0 ⟨.start .default, ⟨.test (.starting .whileWord), floor⟩ :: frames, done⟩
      (t :: ts' ++ (Token.inBraces bs ++ [])) =
        feedAll 0 ⟨.complete floor (.whileLoop test body), frames, done⟩ [] :=
    ht.feedAll_test hb (.loopEnd rfl rfl)
  rw [feedAll_of_shift (.whileWord rfl), List.cons_append,
    feedAll_of_moves (.single (.loopTest fun he => hk (by simp [he]))), ← List.cons_append,
    ← List.append_nil (Token.inBraces bs), htest]
  rfl

theorem Reads.loop (hb : ReadsBody bs body) :
    Reads floor (Owner.whileWord.token :: Token.inBraces bs) level (.whileLoop .missing body) := by
  intro frames done
  refine ⟨⟨.complete floor (.whileLoop .missing body), frames, done⟩, ?_, fun _ _ _ => .refl⟩
  have hbody : feedAll 0 ⟨.opening floor (.starting .whileWord), frames, done⟩
      (Token.inBraces bs ++ []) =
        feedAll 0 ⟨.complete floor (.whileLoop .missing body), frames, done⟩ [] :=
    hb.feedAll_inBraces (.loopEnd rfl rfl)
  rw [feedAll_of_shift (.whileWord rfl), Token.inBraces,
    feedAll_of_moves (.single (.loopBody rfl))]
  simpa [Token.inBraces, feedAll] using hbody

end Parser

end Scriptlet
