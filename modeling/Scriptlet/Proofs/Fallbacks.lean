import Scriptlet.Proofs.Evaluation.Parts
import Scriptlet.Proofs.Parser.Descent

/-!
# Fallbacks that are never reached

Three errors stand where none can be: an operator that is none, a lexer that stops without a reason,
and a value that can be stored but is refused by the variables. What rules them out is kept elsewhere.
Only operators bind tighter than anything, so nothing else gets to where an operator is read; a lexer
stops with its error; and what can be stored is looked at in front of each assignment.

## Main definitions

* `ParseProblem.Raised`: what can be wrong with a token

## Main statements

* `Parser.Settled.raised`: where a token is looked at, no fallback is needed
* `Parser.blamed_of_parse`: what a parse error is about
* `Evaluation.failed_of_assign`: an assignment fails only as its value does
* `fallbacks_unreachable`: no text, evaluation or program ends in a fallback
-/

namespace Scriptlet

/-- What can be wrong with the token `t`, where the parser looks at it. -/
inductive ParseProblem.Raised (t : Token) : ParseProblem → Prop where
  | unexpectedEnd : Raised t .unexpectedEnd
  | badStart : Raised t .badStart
  | expectedParen : Raised t .expectedParen
  | missingOpening (test : Node) (owner : Owner) : Raised t (.missingOpening test owner)
  | missingClosing (test : Node) (owner : Owner) : Raised t (.missingClosing test owner)
  | tooDeep (bound : Nat) : Raised t (.tooDeep bound)
  | afterFinalElse (h : (t.isKeyword .elseWord || t.isKeyword .elifWord) = true) :
      Raised t .afterFinalElse

namespace Parser

variable {bound : Nat} {t : Token} {s u : State} {e : ParseError} {problem : ParseProblem}
  {floor : Precedence} {frames : List Frame} {done : List Node}

theorem raised_of_startWith
    (h : startWith bound floor frames done t = .error (.atToken t problem)) : problem.Raised t := by
  unfold startWith at h
  split at h
  · cases h
    exact .tooDeep bound
  · split at h
    · cases h
    · cases h
    · cases h
    · cases h
    · split at h <;> cases h
    · cases h
      exact .unexpectedEnd
    · cases h
      exact .badStart

/-- Where a token is looked at, no fallback is needed. -/
theorem Settled.raised (h : Settled t s) (he : feed bound s t = .error (.atToken t problem)) :
    problem.Raised t := by
  cases h with
  | start => exact raised_of_startWith he
  | negated hk => rcases hk with hk | hk <;> simp [feed, hk] at he
  | named hk => simp [feed, hk] at he
  | atom hk => simp [feed, hk] at he
  | operator hp => simp [feed, deliver_of_lt hp] at he
  | group hp =>
    simp only [feed] at he
    rw [deliver] at he
    simp only [hp, if_false] at he
    split at he
    · cases he
    · cases he
      exact .expectedParen
  | opening =>
    simp only [feed, openBlock] at he
    split at he
    · cases he
    · cases he
      exact .missingOpening _ _
  | @block floor head body frames done hk =>
    rcases hk with hk | hk
    · by_cases ho : head.owner = .whileWord <;> simp [feed, inBlock, hk, ho] at he
    · simp only [feed, inBlock, hk] at he
      cases he
      exact .missingClosing _ _
  | @branches floor first last links frames done hk =>
    by_cases hl : last = .elseWord
    · simp only [feed, hk, hl, if_true] at he
      cases he
      exact .afterFinalElse hk
    · simp only [feed, hk, hl, if_true, if_false] at he
      split at he <;> cases he
  | top hk => simp [feed, atTop, hk] at he

theorem exists_raised_of_feed (h : feed bound s t = .error e) :
    ∃ problem : ParseProblem, e = .atToken t problem ∧ problem.Raised t := by
  obtain ⟨problem, rfl⟩ := exists_problem_of_feed h
  obtain ⟨u, hm, hu⟩ := settles t s
  rw [Moves.feed_eq hm] at h
  exact ⟨problem, rfl, hu.raised h⟩

/-- The word of a token that goes on with a chain. -/
theorem text_of_means {span : List Char} (hm : Lexeme.Means span t.bare)
    (hk : (t.isKeyword .elseWord || t.isKeyword .elifWord) = true) :
    t.text = "else" ∨ t.text = "elif" := by
  change (t.bare.isKeyword .elseWord || t.bare.isKeyword .elifWord) = true at hk
  change t.bare.text = "else" ∨ t.bare.text = "elif"
  generalize t.bare = b at hm hk
  cases hm with
  | @keyword word k hw =>
    have hmem := Keyword.mem_spellings hw
    simp only [Keyword.spellings, List.mem_cons, Prod.mk.injEq, List.not_mem_nil, or_false] at hmem
    rcases hmem with ⟨rfl, rfl⟩ | ⟨rfl, rfl⟩ | ⟨rfl, rfl⟩ | ⟨rfl, rfl⟩ | ⟨rfl, rfl⟩ | ⟨rfl, rfl⟩ |
      ⟨rfl, rfl⟩ | ⟨rfl, rfl⟩ <;> simp_all [Token.isKeyword]
  | _ => simp [Token.isKeyword, Token.quoted] at hk

theorem Rejects.raised {pieces : List (List Char × Token)} (h : Rejects bound s pieces t e) :
    e.token = some t ∧ e.problem.Raised t := by
  obtain ⟨u, -, hf⟩ := h.refused
  obtain ⟨problem, rfl, hraised⟩ := exists_raised_of_feed hf
  exact ⟨rfl, hraised⟩

/--
What a parse error is about: a lexeme that stands for no token, or what is wrong with a token. A
token that goes on with a chain has the word for it.
-/
theorem blamed_of_parse {text : String} (h : parse bound text = .error e) :
    (∃ failure, e.problem = .unreadable failure) ∨
      ∃ t, e.token = some t ∧ e.problem.Raised t ∧
        (e.problem = .afterFinalElse → t.text = "else" ∨ t.text = "elif") := by
  obtain ⟨pieces, tail, hpart, -, hend, htokens⟩ := Scanner.exists_numbered text.toList 1
  rw [parse, Tokens.ofText, htokens] at h
  have hblames : Blames bound pieces tail e := by
    rcases exists_rejects_of_run h with ⟨before, span, t, after, hp, hr⟩ | ⟨u, hu, hrun⟩
    · exact .token hp hr
    · exact blames_of_run (hend.imp And.left (Exists.imp fun _ => And.left)) hu hrun
  cases hblames with
  | @token before after span t e hp hr =>
    obtain ⟨ht, hraised⟩ := hr.raised
    refine .inr ⟨t, ht, hraised, fun hf => ?_⟩
    rw [hf] at hraised
    cases hraised with
    | afterFinalElse hk => exact text_of_means (hpart.lexeme before span t after hp).2.1 hk
  | ended ht hr =>
    obtain ⟨ht, hraised⟩ := hr.raised
    refine .inr ⟨_, ht, hraised, fun hf => ?_⟩
    rw [hf] at hraised
    cases hraised with
    | afterFinalElse hk => cases hk
  | unreadable hp hu => exact .inl ⟨_, rfl⟩

end Parser

theorem ScanProblem.take_message (p : ScanProblem) :
    p.message.toList.take 5 ∉ ["bad t".toList, "inval".toList] := by
  unfold message
  cases p <;> simp

namespace ParseError

variable {e : ParseError} {t : Token}

/-- No other message starts as those of the fallbacks do. -/
theorem take_detail_of_raised (ht : e.token = some t) (hr : e.problem.Raised t)
    (hw : e.problem = .afterFinalElse → t.text = "else" ∨ t.text = "elif") :
    e.detail.toList.take 5 ∉ ["bad t".toList, "inval".toList] := by
  obtain ⟨problem, token, line⟩ := e
  obtain rfl : token = some t := ht
  dsimp only at hr hw
  cases hr with
  | afterFinalElse hk => rcases hw rfl with hw | hw <;> simp [detail, hw]
  | _ => simp [detail]

theorem take_detail_of_unreadable {failure : ScanError} (hp : e.problem = .unreadable failure) :
    e.detail.toList.take 5 ∉ ["bad t".toList, "inval".toList] := by
  have hd : e.detail = failure.problem.message := by simp only [detail, hp]
  rw [hd]
  exact failure.problem.take_message

end ParseError

/-- A parse error is none of the fallbacks, and its message is none of theirs. -/
theorem Parser.no_fallback_of_parse {bound : Nat} {text : String} {e : ParseError}
    (h : parse bound text = .error e) :
    e.problem ≠ .badOperator ∧ e.problem ≠ .invalidCharacter ∧ e.detail ≠ "invalid character" ∧
      ∀ t : Token, e.detail ≠ "bad token " ++ t.describe := by
  suffices (e.problem ≠ .badOperator ∧ e.problem ≠ .invalidCharacter) ∧
      e.detail.toList.take 5 ∉ ["bad t".toList, "inval".toList] by
    obtain ⟨⟨hb, hi⟩, htake⟩ := this
    refine ⟨hb, hi, fun hd => ?_, fun t hd => ?_⟩ <;> simp [hd] at htake
  rcases blamed_of_parse h with ⟨failure, hp⟩ | ⟨t, ht, hr, hw⟩
  · exact ⟨by simp [hp], ParseError.take_detail_of_unreadable hp⟩
  · refine ⟨?_, ParseError.take_detail_of_raised ht hr hw⟩
    generalize e.problem = problem at hr
    cases hr <;> simp

namespace Evaluation

variable {n m : Node} {s u : State} {x : NotStorable} {passes : Nat}

/-- What can be stored is looked at before it is bound, so an assignment fails as its value does. -/
theorem failed_of_assign {name : String} {value : Effect Value} {e : EvalError}
    (h : assign n (some name) value s = .failed e u) : value s = .failed e u := by
  have hvalue : value.Ensures (· = s) (fun _ _ => True) (fun e u => value s = .failed e u) := by
    intro t ht
    rw [ht]
    cases value s <;> simp [Outcome.Satisfies]
  have hassign : (assign n (some name) value).Ensures (· = s) _ _ := ensures_assign hvalue
  simpa [h, Outcome.Satisfies] using hassign s rfl

theorem not_ends_refused : ¬ Ends n s (.error (.refused m x)) u := by
  intro h
  obtain ⟨q, -, hr⟩ := exists_raises_of_ends h
  generalize he : EvalError.refused m x = e at hr
  cases hr with
  | operand =>
    unfold operandError at he
    split at he <;> cases he
  | _ => cases he

theorem not_failed_of_program_go {nodes : List Node} {last : Value} :
    program.go passes last nodes s ≠ .failed (.refused m x) u := by
  intro h
  induction nodes generalizing s last with
  | nil => cases h
  | cons n ns ih =>
    have hgo : (evaluate passes n >>= fun v => program.go passes v ns) s =
        .ended (.error (.refused m x)) u := h
    rcases Effect.bind_eq_ended_iff.mp hgo with ⟨e, he, heq⟩ | ⟨v, t, -, hrest⟩
    · cases heq
      exact not_ends_refused ⟨passes, he⟩
    · exact ih hrest

end Evaluation

/--
The errors that stand where none can be are never reported. A text is not refused for an operator
that is none, since all that binds tighter than anything is an operator, and not for a character
without a reason, since a lexer that refuses a token has an error, whatever it was asked before. An
assignment of what can be stored is not refused by the variables, so no evaluation and no program
ends in that way.
-/
theorem fallbacks_unreachable :
    (∀ bound text e, Descent.parse bound text = some (.error e) ∨ Parser.parse bound text = .error e →
      e.problem ≠ .badOperator ∧ e.problem ≠ .invalidCharacter ∧ e.detail ≠ "invalid character" ∧
        ∀ t : Token, e.detail ≠ "bad token " ++ t.describe) ∧
    (∀ (floor : Precedence) (t : Token), floor < t.precedence →
      t.kind ∈ [.add, .subtract, .multiply, .divide, .power]) ∧
    (∀ text n s, ((Lexer.ofText text).after n).next = (none, s) → ∃ e, s.error = some e) ∧
    (∀ n name value s e u, Evaluation.assign n (some name) value s = .failed e u →
      value s = .failed e u) ∧
    (∀ passes n s m x u, Evaluation.evaluate passes n s ≠ .failed (.refused m x) u) ∧
    ∀ passes nodes s m x u, Evaluation.program passes nodes s ≠ .failed (.refused m x) u := by
  refine ⟨fun bound text e h => ?_, fun floor t hp => ?_, fun text n s hn => ?_,
    fun _ _ _ _ _ _ => Evaluation.failed_of_assign, fun passes n s m x u h => ?_,
    fun _ _ _ _ _ _ => Evaluation.not_failed_of_program_go⟩
  · refine Parser.no_fallback_of_parse (h.elim (fun h => ?_) id)
    exact Option.some.inj ((Descent.parse_eq bound text).symm.trans h)
  · have hk := Parser.isArithmetic_of_lt hp
    cases ht : t.kind <;> simp [ht, Token.Kind.isArithmetic] at hk ⊢
  · exact ((Lexer.sound_ofText text).after n).exists_error hn
  · exact Evaluation.not_ends_refused ⟨passes, h⟩

/-- A character without a rule is refused for a reason. -/
theorem fallbacks_unreachable_unexpected :
    ∃ e, Parser.parse 0 "a @" = .error e ∧ e.problem ≠ .invalidCharacter := by
  have hrefused : (Parser.parse 0 "a @").toOption.isSome = false := by cbv
  cases hparse : Parser.parse 0 "a @" with
  | error e => exact ⟨e, rfl, (fallbacks_unreachable.1 0 "a @" e (.inr hparse)).2.1⟩
  | ok nodes => simp [hparse, Except.toOption] at hrefused

end Scriptlet
