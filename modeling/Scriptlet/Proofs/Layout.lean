import Scriptlet.Proofs.Parser.Steps

/-!
# Lines do not matter

The parser decides by the kinds and payloads of the tokens. The line of a token only ever reaches an
error. So the tokens of a text can be looked at without their lines and without the whitespace
between them.

## Main definitions

* `Token.bare`, `Tokens.bare`, `ParseError.bare`: a token, a stream and an error without lines
* `Tokens.plain`: the bare tokens of a text

## Main statements

* `Tokens.plain_of_first?`: how a text is read lexeme by lexeme
* `Parser.run_plain`: parsing a text is running over its bare tokens, up to the lines of an error
* `Parser.parse_induction`: what one step preserves holds of a whole text
-/

namespace Scriptlet

/-- A token on no line. -/
def Token.bare (t : Token) : Token := { t with line := 0 }

/-- A scanner's failure on no line. -/
def ScanError.bare (e : ScanError) : ScanError := { e with line := 0 }

namespace Tokens

/-- The same tokens on no lines. -/
def bare : Tokens → Tokens
  | done _ => done 0
  | failed e => failed e.bare
  | cons t rest => cons t.bare rest.bare

/-- The tokens of a text without its layout. -/
def plain (cs : List Char) : Tokens := (ofChars cs 1).significant.bare

/-- The tokens of a list, and then the proper end. -/
def ofList : List Token → Tokens
  | [] => done 0
  | t :: ts => cons t (ofList ts)

/-- The tokens of two streams, the second in place of the proper end of the first. -/
def append : Tokens → Tokens → Tokens
  | done _, b => b
  | failed e, _ => failed e
  | cons t a, b => cons t (a.append b)

instance : Append Tokens := ⟨append⟩

@[simp] theorem done_append (line : Nat) (b : Tokens) : done line ++ b = b := rfl

@[simp] theorem failed_append (e : ScanError) (b : Tokens) : failed e ++ b = failed e := rfl

@[simp] theorem cons_append (t : Token) (a b : Tokens) : cons t a ++ b = cons t (a ++ b) := rfl

@[simp] theorem ofList_append (ts ts' : List Token) : ofList (ts ++ ts') = ofList ts ++ ofList ts' := by
  induction ts with
  | nil => rfl
  | cons t ts ih => simp [ofList, ih]

theorem toList_ofList (ts : List Token) : (ofList ts).toList = ts := by
  induction ts with
  | nil => rfl
  | cons t ts ih => simp [ofList, toList, ih]

theorem toList_ofList_append (ts : List Token) (a : Tokens) :
    (ofList ts ++ a).toList = ts ++ a.toList := by
  induction ts with
  | nil => rfl
  | cons t ts ih => simp [ofList, toList, ih]

theorem failure?_ofList (ts : List Token) : (ofList ts).failure? = none := by
  induction ts with
  | nil => rfl
  | cons t ts ih => exact ih

theorem append_assoc (a b c : Tokens) : a ++ b ++ c = a ++ (b ++ c) := by
  induction a with
  | done line => rfl
  | failed e => rfl
  | cons t a ih => simp [ih]

theorem toList_bare (a : Tokens) : a.bare.toList = a.toList.map Token.bare := by
  induction a with
  | done line => rfl
  | failed e => rfl
  | cons t a ih => simp [bare, toList, ih]

/-- A stream that ends properly is a list of tokens. -/
theorem bare_eq_ofList {a : Tokens} (h : a.bare.failure? = none) : a.bare = ofList a.bare.toList := by
  induction a with
  | done line => rfl
  | failed e => cases h
  | cons t a ih =>
    simp only [bare, toList, ofList]
    rw [← ih h]

theorem toList_significant_bare (a : Tokens) :
    a.significant.bare.toList = (a.toList.filter (·.kind ≠ .whitespace)).map Token.bare := by
  induction a with
  | done line => rfl
  | failed e => rfl
  | cons t a ih =>
    by_cases h : t.kind = .whitespace
    · simp [significant, toList, h, ih]
    · simp [significant, toList, bare, h, ih]

theorem failure?_significant_bare (a : Tokens) :
    a.significant.bare.failure? = a.failure?.map ScanError.bare := by
  induction a with
  | done line => rfl
  | failed e => rfl
  | cons t a ih =>
    by_cases h : t.kind = .whitespace
    · simp [significant, failure?, h, ih]
    · simp [significant, failure?, bare, h, ih]

theorem toList_plain (cs : List Char) :
    (plain cs).toList =
      ((ofChars cs 1).toList.filter (·.kind ≠ .whitespace)).map Token.bare :=
  toList_significant_bare _

end Tokens

/-- What a lexeme reads as stands on no line yet. -/
theorem Lexeme.bare_of_read {l : Lexeme} {t : Token} (h : l.read = .ok t) (line : Nat) :
    ({ t with line } : Token).bare = t := by
  have hl : t.line = 0 := by
    unfold read at h
    grind
  simp [Token.bare, ← hl]

namespace Tokens

theorem significant_bare_ofChars (cs : List Char) (line line' : Nat) :
    (ofChars cs line).significant.bare = (ofChars cs line').significant.bare := by
  fun_induction ofChars cs line generalizing line' with
  | case1 cs line h =>
    rw [ofChars]
    split
    · rfl
    · simp_all
  | case2 cs line l h p hp =>
    rw [ofChars]
    split
    · simp_all
    · rename_i l' h'
      obtain rfl : l = l' := by simpa [h] using h'
      simp [hp, significant, bare, ScanError.bare]
  | case3 cs line l h t ht hr =>
    rw [ofChars]
    split
    · simp_all
    · rename_i l' h'
      obtain rfl : l = l' := by simpa [h] using h'
      simp [ht, hr, significant, bare]
  | case4 cs line l h t ht hr ih =>
    rw [ofChars.eq_def cs line']
    split
    · simp_all
    · rename_i l' h'
      obtain rfl : l = l' := by simpa [h] using h'
      simp only [ht, hr, if_false, significant]
      split
      · exact ih _
      · simp only [bare, Lexeme.bare_of_read ht, ih (line' + l.span.count '\n')]

@[simp] theorem plain_nil : plain [] = done 0 := by
  rw [plain, ofChars]
  rfl

/-- The first lexeme of a text is a failure, the end, a blank, or a token in front of the rest. -/
theorem plain_of_first? {cs : List Char} {l : Lexeme} (h : Lexeme.first? cs = some l) :
    plain cs =
      match l.read with
      | .error p => failed ⟨p, 0⟩
      | .ok t =>
        if l.rule = .stop then done 0
        else if t.kind = .whitespace then plain l.rest
        else cons t (plain l.rest) := by
  rw [plain, ofChars]
  split
  · simp_all
  · rename_i l' h'
    obtain rfl : l = l' := by simpa [h] using h'
    cases ht : l.read with
    | error p => rfl
    | ok t =>
      by_cases hr : l.rule = .stop
      · simp [hr, significant, bare]
      · simp only [hr, if_false, significant, Lexeme.remainder]
        split
        · exact significant_bare_ofChars _ _ _
        · simp only [bare, Lexeme.bare_of_read ht, plain,
            significant_bare_ofChars _ _ 1]

/-- A lexeme that reads as a token is that token in front of the rest, unless it is a blank. -/
theorem plain_of_read {cs : List Char} {l : Lexeme} {t : Token} (h : Lexeme.first? cs = some l)
    (hr : l.read = .ok t) (hs : l.rule ≠ .stop) :
    plain cs = ofList ([t].filter (·.kind ≠ .whitespace)) ++ plain l.rest := by
  rw [plain_of_first? h, hr]
  by_cases hw : t.kind = .whitespace <;> simp [hs, hw, ofList]

end Tokens

/-- A problem that names no line. -/
def ParseProblem.bare : ParseProblem → ParseProblem
  | unreadable e => unreadable e.bare
  | p => p

/-- An error on no line. -/
def ParseError.bare (e : ParseError) : ParseError :=
  ⟨e.problem.bare, e.token.map Token.bare, 0⟩

@[simp] theorem ParseError.bare_atToken (t : Token) (problem : ParseProblem) :
    (atToken t problem).bare = atToken t.bare problem.bare := rfl

@[simp] theorem ParseError.incomplete_bare (e : ParseError) : e.bare.incomplete = e.incomplete := by
  obtain ⟨problem, token, line⟩ := e
  cases token <;> rfl

namespace Parser

variable {bound : Nat} {s : State} {t : Token} {floor : Precedence} {node : Node}
  {frames : List Frame} {done : List Node}

@[simp] theorem kind_bare : t.bare.kind = t.kind := rfl

@[simp] theorem isKeyword_bare {k : Keyword} : t.bare.isKeyword k = t.isKeyword k := rfl

@[simp] theorem precedence_bare : t.bare.precedence = t.precedence := rfl

theorem startWith_bare : startWith bound floor frames done t.bare =
    (startWith bound floor frames done t).mapError ParseError.bare := by
  simp only [startWith, Token.bare]
  repeat' split
  all_goals rfl

theorem Move.bare {u : State} (h : Move t s u) : Move t.bare s u := by
  cases h <;> constructor <;> assumption

theorem Moves.bare {u : State} (h : Moves t s u) : Moves t.bare s u :=
  Relation.ReflTransGen.mono (fun _ _ => Move.bare) _ _ h

theorem Settled.feed_bare (h : Settled t s) :
    feed bound s t.bare = (feed bound s t).mapError ParseError.bare := by
  cases h with
  | start => exact startWith_bare
  | negated hk => rcases hk with hk | hk <;> simp [feed, hk, Except.mapError, Token.bare]
  | named hk | atom hk => simp [feed, hk, Except.mapError]
  | operator hp =>
    simp only [feed, deliver_of_lt hp, deliver_of_lt (t := t.bare) hp]
    rfl
  | group hp =>
    simp only [feed]
    rw [deliver, deliver]
    by_cases hk : t.kind = .rightParen
    · simp [hp, hk, Except.mapError]
    · simp [hp, hk, Except.mapError, ParseProblem.bare]
  | opening =>
    by_cases hk : t.kind = .leftBrace
    · simp [feed, openBlock, hk, Except.mapError]
    · simp [feed, openBlock, hk, Except.mapError, ParseProblem.bare]
  | @block floor head body frames done hk =>
    rcases hk with hk | hk
    · by_cases ho : head.owner = .whileWord <;> simp [feed, inBlock, hk, ho, Except.mapError]
    · simp [feed, inBlock, hk, Except.mapError, ParseProblem.bare]
  | @branches floor first last links frames done hk =>
    by_cases hl : last = .elseWord
    · simp [feed, hk, hl, Except.mapError, ParseProblem.bare]
    · by_cases hi : t.isKeyword .elifWord
      · simp [feed, hl, hi, Except.mapError]
      · have he : t.isKeyword .elseWord := by simpa [hi] using hk
        simp [feed, hl, hi, he, Except.mapError]
  | top hk => simp [feed, atTop, hk, Except.mapError]

theorem feed_bare (bound : Nat) (s : State) (t : Token) :
    feed bound s t.bare = (feed bound s t).mapError ParseError.bare := by
  obtain ⟨u, hm, hu⟩ := settles t s
  rw [Moves.feed_eq hm, Moves.feed_eq (Moves.bare hm), hu.feed_bare]

theorem run_bare (toks : Tokens) : run bound s toks.bare =
    (run bound s toks).mapError ParseError.bare := by
  induction toks generalizing s with
  | done line =>
    have hf := feed_bare bound s (Token.endOfInput line)
    simp only [run, Tokens.bare, show Token.endOfInput 0 = (Token.endOfInput line).bare from rfl, hf]
    cases feed bound s (Token.endOfInput line) <;> rfl
  | failed e => rfl
  | cons t rest ih =>
    simp only [run, Tokens.bare, feed_bare]
    cases feed bound s t with
    | error e => rfl
    | ok u => exact ih

/-- Parsing a text is running over its bare tokens, up to the lines of an error. -/
theorem run_plain (text : String) : run bound .initial (Tokens.plain text.toList) =
    (parse bound text).mapError ParseError.bare :=
  run_bare _

theorem parse_eq_ok_iff {text : String} {nodes : List Node} :
    parse bound text = .ok nodes ↔ run bound .initial (Tokens.plain text.toList) = .ok nodes := by
  rw [run_plain]
  cases parse bound text <;> simp [Except.mapError]

/-! ## Running over a list of tokens -/

theorem run_ofList_append {ts : List Token} {rest : Tokens} :
    run bound s (Tokens.ofList ts ++ rest) =
      match feedAll bound s ts with
      | .error e => .error e
      | .ok u => run bound u rest := by
  induction ts generalizing s with
  | nil => rfl
  | cons t ts ih =>
    simp only [Tokens.ofList, Tokens.cons_append, run, feedAll]
    cases feed bound s t with
    | error e => rfl
    | ok u => exact ih

/-- The end of the text is only read where nothing is open. -/
theorem moves_top_of_feed {line : Nat} {u : State}
    (h : feed bound s (Token.endOfInput line) = .ok u) :
    Moves (Token.endOfInput line) s u ∧ u.control = .top := by
  obtain ⟨v, hm, hs⟩ := exists_shift_of_feed h
  cases hs with
  | finish => exact ⟨hm, rfl⟩
  | tested _ hk | elseWord hk | whileWord hk | elifBranch hk | elseBranch hk => cases hk
  | operator hp => exact absurd hp (Precedence.not_lt_default _)
  | minus hk | number hk | leftParen hk | identifier hk | literal hk | negatedNumber hk
  | negatedIdentifier hk | assign hk | equals hk | rightParen hk | leftBrace hk | loopEnd hk
  | branchEnd hk => cases hk

/-- A run that ends well accepts every token, and the end of the text completes what is left. -/
theorem exists_feedAll_of_run {toks : Tokens} {nodes : List Node}
    (h : run bound s toks = .ok nodes) :
    toks.failure? = none ∧ ∃ u line frames, feedAll bound s toks.toList = .ok u ∧
      Moves (Token.endOfInput line) u ⟨.top, frames, nodes⟩ := by
  induction toks generalizing s with
  | done line =>
    simp only [run] at h
    split at h
    · cases h
    · rename_i u hu
      cases h
      obtain ⟨hm, htop⟩ := moves_top_of_feed hu
      refine ⟨rfl, s, line, u.frames, rfl, ?_⟩
      rwa [← htop]
  | failed e => cases h
  | cons t rest ih =>
    simp only [run] at h
    split at h
    · cases h
    · rename_i u hu
      obtain ⟨hfail, v, line, frames, hv, hm⟩ := ih h
      refine ⟨hfail, v, line, frames, ?_, hm⟩
      rw [Tokens.toList, feedAll_cons_of_ok hu, hv]

/-- What holds at first and is preserved by moves and shifts holds when the text is parsed. -/
theorem parse_induction {P : List Token → Token → State → Prop} {C : Token → Prop} {text : String}
    {nodes : List Node} (h : parse bound text = .ok nodes)
    (hc : ∀ t ∈ (Tokens.plain text.toList).toList, C t) (initial : ∀ next, P [] next .initial)
    (move : ∀ {ts t s u}, Move t s u → P ts t s → P ts t u)
    (shift : ∀ {ts t s u}, C t → Shift t s u → P ts t s → ∀ next, P (ts ++ [t]) next u) :
    ∃ next frames, P (Tokens.plain text.toList).toList next ⟨.top, frames, nodes⟩ := by
  obtain ⟨-, u, line, frames, hu, hm⟩ := exists_feedAll_of_run (parse_eq_ok_iff.mp h)
  have hp : ∀ next, P ([] ++ (Tokens.plain text.toList).toList) next u :=
    feedAll_induction (P := P) move shift hc hu initial
  exact ⟨_, frames, hm.induction move (hp _)⟩

end Parser

end Scriptlet
