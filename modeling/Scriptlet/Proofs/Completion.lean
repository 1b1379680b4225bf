import Scriptlet.Proofs.Scanning

/-!
# Texts that more text can complete

A parse error is marked as incomplete if the text ended too early. Whatever is open at that point can
be closed: an operand stands for the expression that is missing, and the brackets that follow it are
read off the stack. On the other hand a token that was refused, and a lexeme that cannot be read,
stand in every longer text too, so no continuation mends them. So the mark is exact.

## Main definitions

* `Parser.closers`: the brackets that close a stack

## Main statements

* `Parser.exists_completion`: every state can be completed
* `Parser.incomplete_iff_exists_completion`: a failure is marked as incomplete if and only if some
  text on further lines completes it
-/

namespace Scriptlet

namespace Tokens

/-- The token that is fed first. -/
def first? : Tokens → Option Token
  | done line => some (Token.endOfInput line)
  | failed _ => none
  | cons t _ => some t

theorem plain_rightParen (cs : List Char) :
    plain (')' :: cs) = cons { kind := .rightParen } (plain cs) :=
  plain_symbol rfl rfl rfl (by decide) (by decide) (by decide) cs

theorem plain_leftBrace (cs : List Char) :
    plain ('\x7b' :: cs) = cons { kind := .leftBrace } (plain cs) :=
  plain_symbol rfl rfl rfl (by decide) (by decide) (by decide) cs

theorem plain_rightBrace (cs : List Char) :
    plain ('\x7d' :: cs) = cons { kind := .rightBrace } (plain cs) :=
  plain_symbol rfl rfl rfl (by decide) (by decide) (by decide) cs

end Tokens

namespace Parser

/-- What closes the construct that waits for an expression, once the expression is there. -/
def Pending.closer : Pending → List Char
  | .group => [')']
  | .test _ => ['\x7b', '\x7d']
  | .statement .. => ['\x7d']
  | _ => []

/-- The brackets that close a stack, innermost first. -/
def closers : List Frame → List Char
  | [] => []
  | frame :: frames => frame.pending.closer ++ closers frames

/-- A token that ends every expression: it neither goes on with an operand nor is an operator. -/
structure Closing (t : Token) : Prop extends Ends t where
  precedence : t.precedence = .default

theorem closing_of_kind {t : Token}
    (h : t.kind ∈ [.rightParen, .leftBrace, .rightBrace, .endOfInput]) : Closing t := by
  simp only [List.mem_cons, List.not_mem_nil, or_false] at h
  rcases h with h | h | h | h <;>
    exact ⟨⟨by simp [h], by simp [h], by simp [h]⟩,
      by simp [Token.precedence, h, Token.Kind.precedence]⟩

theorem Closing.not_lt {t : Token} (h : Closing t) (floor : Precedence) : ¬ floor < t.precedence := by
  rw [h.precedence]
  exact floor.not_lt_default

theorem closing_of_first?_closers (frames : List Frame) :
    ∀ t ∈ (Tokens.plain (closers frames)).first?, Closing t := by
  induction frames with
  | nil =>
    rw [closers, Tokens.plain_nil]
    rintro t ⟨⟩
    exact closing_of_kind (by simp [Token.endOfInput])
  | cons frame frames ih =>
    obtain ⟨pending, outer⟩ := frame
    cases pending with
    | group =>
      rw [closers, Pending.closer, List.singleton_append, Tokens.plain_rightParen]
      rintro t ⟨⟩
      exact closing_of_kind (by simp)
    | test head =>
      rw [closers, Pending.closer, List.cons_append, Tokens.plain_leftBrace]
      rintro t ⟨⟩
      exact closing_of_kind (by simp)
    | statement head body =>
      rw [closers, Pending.closer, List.singleton_append, Tokens.plain_rightBrace]
      rintro t ⟨⟩
      exact closing_of_kind (by simp)
    | operand | negation | value | comparand => exact ih

/-- Moves that every possible next token makes change nothing. -/
theorem run_eq_of_moves {bound : Nat} {s u : State} {toks : Tokens}
    (h : ∀ t ∈ toks.first?, Moves t s u) : run bound s toks = run bound u toks := by
  cases toks with
  | done line => simp only [run, Moves.feed_eq (h _ rfl)]
  | failed e => rfl
  | cons t rest => simp only [run, Moves.feed_eq (h _ rfl)]

/-- The text `cs` completes the state `s`. -/
def Completes (s : State) (cs : List Char) : Prop := ∃ nodes, run 0 s (Tokens.plain cs) = .ok nodes

variable {s u : State} {floor : Precedence} {node : Node} {frames : List Frame} {done : List Node}
  {cs : List Char}

theorem Completes.of_shift {t : Token} {cs' : List Char} (hs : Shift t s u)
    (hp : Tokens.plain cs' = .cons t (Tokens.plain cs)) (h : Completes u cs) : Completes s cs' := by
  obtain ⟨nodes, hn⟩ := h
  exact ⟨nodes, by simp only [hp, run, hs.feed_eq, hn]⟩

theorem Completes.of_moves {t : Token} {toks : Tokens} (hm : Moves t s u)
    (hp : Tokens.plain cs = .cons t toks) (h : Completes u cs) : Completes s cs := by
  obtain ⟨nodes, hn⟩ := h
  refine ⟨nodes, ?_⟩
  rw [run_eq_of_moves (u := u), hn]
  rintro t' ht'
  rw [hp] at ht'
  cases ht'
  exact hm

theorem Completes.of_closing (frames : List Frame) (hm : ∀ t, Closing t → Moves t s u)
    (h : Completes u (closers frames)) : Completes s (closers frames) := by
  obtain ⟨nodes, hn⟩ := h
  refine ⟨nodes, ?_⟩
  rw [run_eq_of_moves fun t ht => hm t (closing_of_first?_closers frames t ht), hn]

/-- A block closes if the stack below it does. -/
theorem completes_block {head : Head} {body : List Node}
    (h : ∀ floor node, Completes ⟨.complete floor node, frames, done⟩ (closers frames)) :
    Completes ⟨.block floor head body, frames, done⟩ ('\x7d' :: closers frames) := by
  by_cases ho : head.owner = .whileWord
  · exact .of_shift (.loopEnd rfl ho) (Tokens.plain_rightBrace _) (h _ _)
  · refine .of_shift (.branchEnd rfl ho) (Tokens.plain_rightBrace _) ?_
    exact .of_closing _ (fun t ht => ht.moves_branches) (h _ _)

/-- The induction is on the stack; each frame takes its own brackets from the front. -/
theorem completes_complete (frames : List Frame) (floor : Precedence) (node : Node) :
    Completes ⟨.complete floor node, frames, done⟩ (closers frames) := by
  induction frames generalizing floor node with
  | nil =>
    have hc : Closing (Token.endOfInput 0) := closing_of_kind (by simp [Token.endOfInput])
    refine ⟨done ++ [node], ?_⟩
    simp only [closers, Tokens.plain_nil, run, (Move.last (hc.not_lt floor)).feed_eq,
      (Shift.finish (t := Token.endOfInput 0) rfl).feed_eq]
  | cons frame frames ih =>
    obtain ⟨pending, outer⟩ := frame
    cases pending with
    | operand left op =>
      exact .of_closing frames (fun t ht => .single (.binary (ht.not_lt _))) (ih _ _)
    | negation =>
      refine .of_closing frames (fun t ht => ?_) (ih outer (.negative node))
      exact .head (.negative (ht.not_lt _)) ht.moves_atom
    | value target =>
      exact .of_closing frames (fun t ht => .single (.assignment (ht.not_lt _))) (ih _ _)
    | comparand left =>
      exact .of_closing frames (fun t ht => .single (.condition (ht.not_lt _))) (ih _ _)
    | group => exact .of_shift (.rightParen rfl) (Tokens.plain_rightParen _) (ih _ _)
    | test head =>
      have hp := Tokens.plain_leftBrace ('\x7d' :: closers frames)
      refine .of_moves (.single (.test (Closing.not_lt (closing_of_kind (by simp)) floor))) hp ?_
      exact .of_shift (.leftBrace rfl) hp (completes_block ih)
    | statement head body =>
      have hp := Tokens.plain_rightBrace (closers frames)
      refine .of_moves (.single (.statement (Closing.not_lt (closing_of_kind (by simp)) floor))) hp ?_
      exact completes_block ih

theorem plain_emptyQuotes (cs : List Char) :
    Tokens.plain ('"' :: '"' :: cs) = .cons (Token.quoted []) (Tokens.plain cs) := by
  rw [Lexeme.plain_quoted]
  simp [Lexeme.splitQuoted]

/-- An empty quoted text is an operand. -/
theorem completes_start : Completes ⟨.start floor, frames, done⟩ ('"' :: '"' :: closers frames) := by
  refine .of_shift (.literal rfl (Owner.ne_keyword (by decide))) (plain_emptyQuotes _) ?_
  exact .of_closing _ (fun t ht => ht.moves_atom) (completes_complete _ _ _)

theorem completes_opening {head : Head} :
    Completes ⟨.opening floor head, frames, done⟩ ('\x7b' :: '\x7d' :: closers frames) :=
  .of_shift (.leftBrace rfl) (Tokens.plain_leftBrace _) (completes_block (completes_complete frames))

/-- Whatever is open, some text closes it. -/
theorem exists_completion (s : State) : ∃ cs, Completes s cs := by
  obtain ⟨control, frames, done⟩ := s
  cases control with
  | top =>
    refine ⟨[], done, ?_⟩
    simp only [Tokens.plain_nil, run, (Shift.finish (t := Token.endOfInput 0) rfl).feed_eq]
  | block floor head body => exact ⟨_, completes_block (completes_complete frames)⟩
  | start floor => exact ⟨_, completes_start⟩
  | negated floor =>
    have hm : Moves (Token.quoted []) ⟨.negated floor, frames, done⟩
        ⟨.start .negativeValue, ⟨.negation, floor⟩ :: frames, done⟩ :=
      .single (.operand (by simp [Token.quoted]) (by simp [Token.quoted]))
    exact ⟨_, .of_moves hm (plain_emptyQuotes _) completes_start⟩
  | named floor name =>
    exact ⟨_, .of_closing _ (fun t ht => ht.moves_named) (completes_complete frames _ _)⟩
  | atom floor node =>
    exact ⟨_, .of_closing _ (fun t ht => ht.moves_atom) (completes_complete frames _ _)⟩
  | complete floor node => exact ⟨_, completes_complete frames _ _⟩
  | loop floor =>
    have hm : Moves { kind := .leftBrace } ⟨.loop floor, frames, done⟩
        ⟨.opening floor (.starting .whileWord), frames, done⟩ := .single (.loopBody rfl)
    exact ⟨_, .of_moves hm (Tokens.plain_leftBrace _) completes_opening⟩
  | opening floor head => exact ⟨_, completes_opening⟩
  | branches floor first last links =>
    exact ⟨_, .of_closing _ (fun t ht => ht.moves_branches) (completes_complete frames _ _)⟩

/-! ## Refused tokens stay refused -/

/-- Every token of the stream is accepted, and the stream ends properly. -/
def Accepts (s : State) : Tokens → Prop
  | .done _ => True
  | .failed _ => False
  | .cons t rest => ∃ u, feed 0 s t = .ok u ∧ Accepts u rest

theorem Accepts.exists_run {toks : Tokens} (h : Accepts s toks) :
    ∃ u, ∀ rest, run 0 s (toks ++ rest) = run 0 u rest := by
  induction toks generalizing s with
  | done line => exact ⟨s, fun rest => rfl⟩
  | failed e => cases h
  | cons t toks ih =>
    obtain ⟨v, hv, ha⟩ := h
    obtain ⟨u, hu⟩ := ih ha
    exact ⟨u, fun rest => by simp only [Tokens.cons_append, run, hv, hu]⟩

theorem accepts_of_run_append {toks rest : Tokens} {nodes : List Node}
    (h : run 0 s (toks ++ rest) = .ok nodes) : Accepts s toks := by
  induction toks generalizing s with
  | done line => trivial
  | failed e => simp [run] at h
  | cons t toks ih =>
    simp only [Tokens.cons_append, run] at h
    cases hf : feed 0 s t with
    | error e => simp [hf] at h
    | ok v =>
      simp only [hf] at h
      exact ⟨v, hf, ih h⟩

/-- A failure is at the end exactly if all tokens in front of the end are accepted. -/
theorem incomplete_iff_accepts {toks : Tokens} {e : ParseError}
    (hk : ∀ t ∈ toks.toList, t.kind ≠ .endOfInput) (h : run 0 s toks = .error e) :
    e.incomplete ↔ Accepts s toks := by
  induction toks generalizing s with
  | done line =>
    simp only [run] at h
    split at h
    · rename_i e' hf
      cases h
      obtain ⟨problem, rfl⟩ := exists_problem_of_feed hf
      simp [ParseError.incomplete, ParseError.atToken, Token.endOfInput, Accepts]
    · cases h
  | failed failure =>
    cases h
    simp [ParseError.incomplete, Accepts]
  | cons t toks ih =>
    simp only [run] at h
    cases hf : feed 0 s t with
    | error e' =>
      simp only [hf, Except.error.injEq] at h
      obtain ⟨problem, rfl⟩ := exists_problem_of_feed hf
      have ht := hk t List.mem_cons_self
      simp [← h, ParseError.incomplete, ParseError.atToken, Accepts, hf, ht]
    | ok v =>
      simp only [hf] at h
      rw [ih (fun t ht => hk t (List.mem_cons_of_mem _ ht)) h]
      simp [Accepts, hf]

/-- A quoted text is read as an operand only. -/
theorem Shift.exists_atom_of_quoted {body : List Char} (h : Shift (.quoted body) s u) :
    ∃ floor frames done, s = ⟨.start floor, frames, done⟩ ∧
      u = ⟨.atom floor (.literal (String.ofList body) .none), frames, done⟩ := by
  cases h with
  | literal => exact ⟨_, _, _, rfl, rfl⟩
  | tested ho hk => rcases ho with rfl | rfl <;> cases hk
  | operator hp => exact absurd hp (Precedence.not_lt_default _)
  | elseWord hk | whileWord hk | elifBranch hk | elseBranch hk => cases hk
  | minus hk | number hk | leftParen hk | identifier hk | negatedNumber hk | negatedIdentifier hk
  | assign hk | equals hk | rightParen hk | leftBrace hk | loopEnd hk | branchEnd hk | finish hk =>
    cases hk

/-- What a quoted text forces before it is read does not depend on what it says. -/
theorem Moves.quoted {body : List Char} (h : Moves (.quoted body) s u) (body' : List Char) :
    Moves (.quoted body') s u := by
  refine Relation.ReflTransGen.mono (fun _ _ hm => ?_) _ _ h
  cases hm <;> constructor <;> assumption

/-- Whether a quoted text is accepted does not depend on what it says. -/
theorem exists_feed_quoted {body : List Char} (h : feed 0 s (.quoted body) = .ok u)
    (body' : List Char) : ∃ u', feed 0 s (.quoted body') = .ok u' := by
  obtain ⟨v, hm, hs⟩ := exists_shift_of_feed h
  rw [Moves.feed_eq (hm.quoted body')]
  obtain ⟨floor, frames, done, rfl, -⟩ := hs.exists_atom_of_quoted
  exact ⟨_, (Shift.literal (t := .quoted body') rfl (Owner.ne_keyword (k := .none) (by decide))).feed_eq⟩

theorem Accepts.quoted {ts : List Token} {body : List Char}
    (h : Accepts s (Tokens.ofList (ts ++ [.quoted body]))) (body' : List Char) :
    Accepts s (Tokens.ofList (ts ++ [.quoted body'])) := by
  induction ts generalizing s with
  | nil =>
    obtain ⟨u, hu, -⟩ := h
    obtain ⟨u', hu'⟩ := exists_feed_quoted hu body'
    exact ⟨u', hu', trivial⟩
  | cons t ts ih =>
    obtain ⟨u, hu, ha⟩ := h
    exact ⟨u, hu, ih ha⟩

/-- An open quoted text goes on with the line break, and is closed before the completion. -/
theorem accepts_iff_exists_run {cs : List Char} (hn : '\x00' ∉ cs) :
    Accepts s (Tokens.plain cs) ↔
      ∃ more nodes, run 0 s (Tokens.plain (cs ++ '\n' :: more)) = .ok nodes := by
  have hsep (more : List Char) : Text.Separated ('\n' :: more) := Text.separated_cons rfl
  by_cases ho : Lexeme.EndsOpen cs
  · obtain ⟨ts, body, hp, happ⟩ := ho.plain_append hn
    constructor
    · intro h
      rw [hp] at h
      obtain ⟨u, hu⟩ := (h.quoted (body ++ ['\n'])).exists_run
      obtain ⟨more, nodes, hmore⟩ := exists_completion u
      refine ⟨'"' :: more, nodes, ?_⟩
      rw [happ _ (hsep _), ← hmore, ← hu]
      rfl
    · rintro ⟨more, nodes, h⟩
      rw [happ _ (hsep _)] at h
      rw [hp]
      exact (accepts_of_run_append h).quoted body
  · have happ (more : List Char) :
        Tokens.plain (cs ++ '\n' :: more) = Tokens.plain cs ++ Tokens.plain more := by
      rw [Tokens.plain_append hn ho (hsep _), Tokens.plain_blank rfl]
    constructor
    · intro h
      obtain ⟨u, hu⟩ := h.exists_run
      obtain ⟨more, nodes, hmore⟩ := exists_completion u
      exact ⟨more, nodes, by rw [happ, hu, hmore]⟩
    · rintro ⟨more, nodes, h⟩
      rw [happ] at h
      exact accepts_of_run_append h

/-- A failure is marked as incomplete if and only if some text on further lines completes it. -/
theorem incomplete_iff_exists_completion (text : String) (hn : '\x00' ∉ text.toList) :
    (∃ e, parse 0 text = .error e ∧ e.incomplete) ↔
      (∃ e, parse 0 text = .error e) ∧
        ∃ more nodes, parse 0 (text ++ "\n" ++ more) = .ok nodes := by
  have hmark {e : ParseError} (h : parse 0 text = .error e) :
      e.incomplete ↔ Accepts .initial (Tokens.plain text.toList) := by
    rw [← ParseError.incomplete_bare]
    refine incomplete_iff_accepts (fun t ht => ?_) (by rw [run_plain, h]; rfl)
    exact (Tokens.scanned_of_mem_plain ht).kind_ne_endOfInput
  have hmore : Accepts .initial (Tokens.plain text.toList) ↔
      ∃ more nodes, parse 0 (text ++ "\n" ++ more) = .ok nodes := by
    simp only [accepts_iff_exists_run hn, parse_eq_ok_iff, String.toList_append]
    constructor
    · rintro ⟨more, h⟩
      exact ⟨String.ofList more, by simpa using h⟩
    · rintro ⟨more, h⟩
      exact ⟨more.toList, by simpa using h⟩
  rw [← hmore]
  constructor
  · rintro ⟨e, he, hi⟩
    exact ⟨⟨e, he⟩, (hmark he).mp hi⟩
  · rintro ⟨⟨e, he⟩, ha⟩
    exact ⟨e, he, (hmark he).mpr ha⟩

theorem incomplete_iff_exists_completion_openQuote :
    '\x00' ∉ "if x \x7b y = -(z + \"a".toList ∧
      (∃ e, parse 0 "if x \x7b y = -(z + \"a" = .error e ∧ e.incomplete) ∧
        ∃ more nodes, parse 0 ("if x \x7b y = -(z + \"a" ++ "\n" ++ more) = .ok nodes := by
  have hn : '\x00' ∉ "if x \x7b y = -(z + \"a".toList := by decide
  have he : ∃ e, parse 0 "if x \x7b y = -(z + \"a" = .error e ∧ e.incomplete := by
    refine ⟨.atToken (Token.endOfInput 1) .expectedParen, ?_, rfl⟩
    cbv
  exact ⟨hn, he, ((incomplete_iff_exists_completion _ hn).mp he).2⟩

end Parser

end Scriptlet
