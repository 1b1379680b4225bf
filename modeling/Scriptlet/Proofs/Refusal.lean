import Scriptlet.Proofs.Parser.Depth
import Scriptlet.Proofs.Repl.Chunks
import Scriptlet.Proofs.Spelling

/-!
# Refused for good

A token that is refused stays refused, whatever text follows on further lines, and this holds under a
bound on the depth too. So an expression that is too deep, and whose first token is there, is reported
as such for good. If the text ends where the expression that is too deep has to begin, the error names
the end, and counts as incomplete. Then more text helps only after a minus and after `while`, where the
next token decides whether an expression begins at all.

## Main definitions

* `Tokens.Continues`: what the tokens of a text can become when more text follows
* `Parser.BreaksOff`: a text that ends where an expression has to begin

## Main statements

* `Tokens.continues_plain`: the tokens of a text with further lines
* `Parser.exists_error_of_continues`: what is refused stays refused
* `Parser.exists_completion_of_opens`: what helps after a minus and after `while`
* `Parser.incomplete_tooDeep_iff`: when an expression that is too deep is reported for good
-/

namespace Scriptlet

namespace Tokens

/-- What the tokens of a text can become when further lines follow: an open quoted text goes on. -/
inductive Continues : Tokens → Tokens → Prop where
  | done {line b} : Continues (.done line) b
  | failed {e} : Continues (.failed e) (.failed e)
  | cons {t a b} (h : Continues a b) : Continues (.cons t a) (.cons t b)
  | quoted {body body' line b} :
      Continues (.cons (.quoted body) (.done line)) (.cons (.quoted body') b)

theorem continues_plain (cs : List Char) {ds : List Char} (hd : Text.Separated ds) :
    Continues (plain cs) (plain (cs ++ ds)) := by
  cases h : Lexeme.first? cs with
  | none =>
    cases cs with
    | nil =>
      rw [plain_nil]
      exact .done
    | cons c cs => simp [Lexeme.first?] at h
  | some l =>
    have hlt := Lexeme.length_rest_lt h
    by_cases ho : l.Open
    · obtain ⟨body, rfl, hb, -⟩ := ho.eq_cons h
      have hsplit := Lexeme.splitQuoted_append_of_not_mem hb []
      rw [List.append_nil] at hsplit
      rw [List.cons_append, Lexeme.plain_quoted, Lexeme.plain_quoted, hsplit]
      simp only [Lexeme.splitQuoted, plain_nil]
      exact .quoted
    · have ih := continues_plain l.rest hd
      rw [plain_of_first? h, plain_of_first? (Lexeme.first?_append h ho hd), Lexeme.read_append l hd]
      cases l.read with
      | error p => exact .failed
      | ok t =>
        dsimp only
        split
        · exact .done
        · split
          · exact ih
          · exact .cons ih
termination_by cs.length

theorem continues_line (cs more : List Char) : Continues (plain cs) (plain (cs ++ '\n' :: more)) :=
  continues_plain cs (Text.separated_cons rfl)

/-- A character that starts no lexeme cannot be read. -/
theorem plain_unknown {c : Char} (hr : Lexeme.singleRule c = .unknown) (hd : c.isDigit = false)
    (hl : c.isLower = false) (hq : c ≠ '"') (cs : List Char) :
    plain (c :: cs) = failed ⟨.unexpected c, 0⟩ := by
  have he : c ≠ '=' := by
    rintro rfl
    cases hr
  rw [plain_of_first? (Lexeme.first?_eq_some_iff.mpr (.single hd hl hq fun h => absurd h he))]
  simp [Lexeme.read, hr]

/-- The colon of a command is no lexeme, and neither are the blanks that the language does not know. -/
theorem exists_plain_eq_failed {cs : List Char} (h : (Text.dropBlanks cs).head? = some ':') :
    ∃ failure, plain cs = failed failure := by
  induction cs with
  | nil => cases h
  | cons c cs ih =>
    by_cases hb : Text.isBlank c
    · have hrule : Lexeme.singleRule c = .blank ∨ Lexeme.singleRule c = .unknown := by
        unfold Lexeme.singleRule
        split <;> simp_all [Text.isBlank]
      rcases hrule with hr | hr
      · rw [plain_blank hr]
        exact ih (by simpa [Text.dropBlanks, hb] using h)
      · have hl : c.isLower = false := by
          by_contra hl
          simp [Text.isBlank_eq_false_of_isLower (by simpa using hl)] at hb
        have hq : c ≠ '"' := by
          rintro rfl
          cases hb
        exact ⟨_, plain_unknown hr (Text.not_isDigit_of_isBlank hb) hl hq cs⟩
    · obtain rfl : c = ':' := by simpa [Text.dropBlanks, hb] using h
      exact ⟨_, plain_unknown rfl rfl rfl (by decide) cs⟩

end Tokens

namespace Parser

variable {bound : Nat} {s u : State} {t : Token} {toks : Tokens} {e : ParseError}

/-! ## Tokens that are refused -/

/-- Whether a quoted text is refused, and why, does not depend on what it says. -/
theorem exists_error_of_feed_quoted {body : List Char}
    (h : feed bound s (.quoted body) = .error e) (body' : List Char) :
    feed bound s (.quoted body') = .error (.atToken (.quoted body') e.problem) := by
  obtain ⟨u, hm, hu⟩ := settles (.quoted body) s
  rw [Moves.feed_eq hm] at h
  rw [Moves.feed_eq (hm.quoted body')]
  cases hu with
  | start =>
    simp only [feed, startWith, Token.quoted] at h ⊢
    split at h
    · rename_i hb
      cases h
      rw [if_pos hb]
      rfl
    · cases h
  | group hp =>
    have hp' : ¬ _ < (Token.quoted body').precedence := hp
    simp only [feed] at h ⊢
    rw [deliver, if_neg hp] at h
    rw [deliver, if_neg hp']
    cases h
    rfl
  | opening =>
    simp only [feed, openBlock, Token.quoted] at h ⊢
    cases h
    rfl
  | operator hp => exact absurd hp (Precedence.not_lt_default _)
  | negated hk | block hk => rcases hk with hk | hk <;> cases hk
  | named hk | atom hk | top hk => cases hk
  | branches hk => cases hk

theorem incomplete_of_run_done {line : Nat} (h : run bound s (.done line) = .error e) :
    e.incomplete := by
  simp only [run] at h
  split at h
  · rename_i e' hf
    cases h
    obtain ⟨problem, rfl⟩ := exists_problem_of_feed hf
    rfl
  · cases h

/-- What is refused stays refused, for the same reason. -/
theorem exists_error_of_continues {b : Tokens} (hc : Tokens.Continues toks b)
    (h : run bound s toks = .error e) (hi : e.incomplete = false) :
    ∃ e', run bound s b = .error e' ∧ e'.problem = e.problem ∧ e'.incomplete = false := by
  induction hc generalizing s with
  | done => simp [incomplete_of_run_done h] at hi
  | failed => exact ⟨e, h, rfl, hi⟩
  | @cons t a b _ ih =>
    cases hf : feed bound s t with
    | error e' =>
      obtain rfl : e' = e := by simpa [run, hf] using h
      exact ⟨e', by simp [run, hf], rfl, hi⟩
    | ok u =>
      obtain ⟨e', he, hp, hi'⟩ := ih (by simpa [run, hf] using h)
      exact ⟨e', by simpa [run, hf] using he, hp, hi'⟩
  | @quoted body body' line b =>
    cases hf : feed bound s (.quoted body) with
    | error e' =>
      obtain rfl : e' = e := by simpa [run, hf] using h
      exact ⟨.atToken (.quoted body') e'.problem, by simp [run, exists_error_of_feed_quoted hf body'],
        rfl, rfl⟩
    | ok u =>
      have hdone : run bound u (.done line) = .error e := by simpa [run, hf] using h
      simp [incomplete_of_run_done hdone] at hi

/-! ## The end of the text -/

/-- An error at the end means that every token was accepted. -/
theorem exists_feedAll_of_incomplete (hk : ∀ t ∈ toks.toList, t.kind ≠ .endOfInput)
    (h : run bound s toks = .error e) (hi : e.incomplete) :
    toks.failure? = none ∧ ∃ u line, feedAll bound s toks.toList = .ok u ∧
      feed bound u (Token.endOfInput line) = .error e := by
  induction toks generalizing s with
  | failed failure =>
    cases h
    cases hi
  | done line =>
    refine ⟨rfl, s, line, rfl, ?_⟩
    simp only [run] at h
    split at h
    · rename_i e' hf
      cases h
      exact hf
    · cases h
  | cons t rest ih =>
    cases hf : feed bound s t with
    | error e' =>
      obtain rfl : e' = e := by simpa [run, hf] using h
      obtain ⟨problem, rfl⟩ := exists_problem_of_feed hf
      exact absurd (by simpa [ParseError.incomplete, ParseError.atToken] using hi)
        (hk t List.mem_cons_self)
    | ok v =>
      obtain ⟨hfail, u, line, hu, hend⟩ := ih (fun t ht => hk t (List.mem_cons_of_mem _ ht))
        (by simpa [run, hf] using h)
      exact ⟨hfail, u, line, by simpa [Tokens.toList, feedAll, hf] using hu, hend⟩

/-- An error that is not at the end is at one of the tokens. -/
theorem exists_mem_of_not_incomplete (h : run bound s toks = .error e) (hi : e.incomplete = false)
    (hp : ∀ failure, e.problem ≠ .unreadable failure) : ∃ t ∈ toks.toList, e.token = some t := by
  induction toks generalizing s with
  | failed failure =>
    cases h
    exact absurd rfl (hp failure)
  | done line => simp [incomplete_of_run_done h] at hi
  | cons t rest ih =>
    cases hf : feed bound s t with
    | error e' =>
      obtain rfl : e' = e := by simpa [run, hf] using h
      obtain ⟨problem, rfl⟩ := exists_problem_of_feed hf
      exact ⟨t, List.mem_cons_self, rfl⟩
    | ok v =>
      obtain ⟨t', ht, he⟩ := ih (by simpa [run, hf] using h)
      exact ⟨t', List.mem_cons_of_mem _ ht, he⟩

/-- An expression begins with the next token, or it may. -/
def Control.Opens : Control → Prop
  | .start _ | .negated _ | .loop _ => True
  | _ => False

/-- The end begins nothing where nothing can begin. -/
theorem Move.not_opens {line : Nat} (h : Move (Token.endOfInput line) s u) (hs : ¬ s.control.Opens) :
    ¬ u.control.Opens := by
  cases h with
  | fresh he => exact absurd rfl he
  | inside _ he => exact absurd rfl he
  | operand | loopTest => exact absurd trivial hs
  | _ => exact id

theorem Settled.exists_start_of_tooDeep {n : Nat} (hs : Settled t s)
    (h : feed bound s t = .error e) (hp : e.problem = .tooDeep n) :
    ∃ floor, s.control = .start floor := by
  cases hs with
  | start => exact ⟨_, rfl⟩
  | group hlt =>
    simp only [feed] at h
    rw [deliver, if_neg hlt] at h
    split at h
    · cases h
    · cases h
      cases hp
  | opening =>
    simp only [feed, openBlock] at h
    split at h
    · cases h
    · cases h
      cases hp
  | operator hlt => simp [feed, deliver_of_lt hlt] at h
  | negated hk =>
    rcases hk with hk | hk <;> simp [feed, hk] at h
  | named hk | atom hk => simp [feed, hk] at h
  | block hk =>
    rcases hk with hk | hk
    · simp only [feed, inBlock, hk] at h
      split at h <;> cases h
    · simp only [feed, inBlock, hk] at h
      cases h
      cases hp
  | branches hk =>
    simp only [feed, hk, if_true] at h
    split at h
    · cases h
      cases hp
    · split at h <;> cases h
  | top hk => simp [feed, atTop, hk] at h

/-- An expression that is too deep at the end has to begin there, or is what a minus or a loop wants. -/
theorem opens_of_tooDeep {line n : Nat} (h : feed bound s (Token.endOfInput line) = .error e)
    (hp : e.problem = .tooDeep n) : s.control.Opens := by
  obtain ⟨u, hm, hu⟩ := settles (Token.endOfInput line) s
  rw [Moves.feed_eq hm] at h
  obtain ⟨floor, hstart⟩ := hu.exists_start_of_tooDeep h hp
  by_contra hs
  have hn : ¬ u.control.Opens :=
    hm.induction (P := fun s => ¬ s.control.Opens) (fun hmove => hmove.not_opens) hs
  exact hn (by rw [hstart]; trivial)

/-! ## Where an expression has to begin -/

/-- All tokens of a text are accepted, and after the last one an expression has to begin. -/
def BreaksOff (bound : Nat) (text : String) : Prop :=
  ∃ u floor, feedAll bound .initial (Tokens.plain text.toList).toList = .ok u ∧
    u.control = .start floor

theorem exists_run_eq_error_of_start {floor : Precedence} (hc : s.control = .start floor)
    (hb : 0 < bound) (hd : bound < s.frames.length + 1) (toks : Tokens) :
    ∃ e, run bound s toks = .error e := by
  have hfeed (t : Token) : feed bound s t = .error (.atToken t (.tooDeep bound)) := by
    simp [feed, hc, startWith, hb, hd]
  cases toks with
  | failed e => exact ⟨_, rfl⟩
  | done line | cons => exact ⟨_, by simp [run, hfeed]; rfl⟩

/-- A quoted text is an operand, so no expression begins after it. -/
theorem not_opens_of_feed_quoted {body : List Char} (h : feed bound s (.quoted body) = .ok u) :
    ¬ u.control.Opens := by
  obtain ⟨v, -, hs⟩ := exists_shift_of_feed h
  obtain ⟨floor, frames, done, -, rfl⟩ := hs.exists_atom_of_quoted
  exact id

/-- Where an expression that is too deep has to begin, no text helps. -/
theorem exists_error_of_continues_start {b : Tokens} {floor : Precedence}
    (hc : Tokens.Continues toks b) (hf : toks.failure? = none)
    (h : feedAll bound s toks.toList = .ok u) (hu : u.control = .start floor) (hb : 0 < bound)
    (hd : bound < u.frames.length + 1) : ∃ e, run bound s b = .error e := by
  induction hc generalizing s with
  | done =>
    cases h
    exact exists_run_eq_error_of_start hu hb hd _
  | failed => cases hf
  | cons _ ih =>
    obtain ⟨v, hv, hrest⟩ := exists_feed_of_feedAll_cons h
    obtain ⟨e, he⟩ := ih hf hrest
    exact ⟨e, by simpa [run, hv] using he⟩
  | quoted =>
    obtain ⟨v, hv, hrest⟩ := exists_feed_of_feedAll_cons h
    cases hrest
    exact absurd (by rw [hu]; trivial) (not_opens_of_feed_quoted hv)

/-! ## Completions within the bound -/

/-- Expressions that have begun are within the bound. -/
theorem begun_le_of_feed (hb : 0 < bound) (hs : s.begun ≤ bound) (h : feed bound s t = .ok u) :
    u.begun ≤ bound := by
  obtain ⟨v, hm, hv⟩ := settles t s
  have hd : v.depth ≤ bound := by
    by_contra hlt
    simp [feed_eq_error hb hs hm (Nat.not_le.mp hlt)] at h
  rw [Moves.feed_eq hm] at h
  rcases hv.outcome bound with ⟨w, hw, hshift⟩ | ⟨problem, hp⟩
  · obtain rfl : u = w := by simpa [h] using hw
    exact hshift.begun_le.trans hd
  · simp [h] at hp

/-- A bracket that closes something, or the end. -/
def Closes (t : Token) : Prop := t.kind ∈ [.rightParen, .leftBrace, .rightBrace, .endOfInput]

/-- No expression begins with a closing bracket, so the bound does not matter to it. -/
theorem feed_eq_of_closes (hk : Closes t) (hs : s.begun ≤ bound) (h : feed 0 s t = .ok u) :
    feed bound s t = .ok u := by
  obtain ⟨v, hm, hv⟩ := settles t s
  have hd : v.depth ≤ bound := by
    by_contra hlt
    obtain ⟨floor, hc⟩ := State.exists_start_of_begun_lt
      ((hm.begun_le.trans hs).trans_lt (Nat.not_le.mp hlt))
    rw [Moves.feed_eq hm] at h
    simp only [Closes, List.mem_cons, List.not_mem_nil, or_false] at hk
    rcases hk with hk | hk | hk | hk <;> simp [feed, hc, startWith, hk] at h
  rw [feed_eq_of_depth_le hm hv hd, h]

theorem run_eq_of_closes {nodes : List Node} (hk : ∀ t ∈ toks.toList, Closes t) (hb : 0 < bound)
    (hs : s.begun ≤ bound) (h : run 0 s toks = .ok nodes) : run bound s toks = .ok nodes := by
  induction toks generalizing s with
  | failed failure => cases h
  | done line =>
    cases hf : feed 0 s (Token.endOfInput line) with
    | error e => simp [run, hf] at h
    | ok u =>
      have hbound := feed_eq_of_closes (by simp [Closes, Token.endOfInput]) hs hf
      simpa [run, hf, hbound] using h
  | cons t rest ih =>
    cases hf : feed 0 s t with
    | error e => simp [run, hf] at h
    | ok u =>
      have hbound := feed_eq_of_closes (hk t List.mem_cons_self) hs hf
      have hr := ih (fun t ht => hk t (List.mem_cons_of_mem _ ht)) (begun_le_of_feed hb hs hbound)
        (by simpa [run, hf] using h)
      simpa [run, hbound] using hr

theorem closes_of_mem_closers (frames : List Frame) :
    ∀ t ∈ (Tokens.plain (closers frames)).toList, Closes t := by
  induction frames with
  | nil => simp [closers, Tokens.toList]
  | cons frame frames ih =>
    obtain ⟨pending, outer⟩ := frame
    cases pending with
    | group =>
      rw [closers, Pending.closer, List.singleton_append, Tokens.plain_rightParen]
      simpa [Tokens.toList, Closes] using ih
    | test head =>
      rw [closers, Pending.closer, List.cons_append, Tokens.plain_leftBrace, List.singleton_append,
        Tokens.plain_rightBrace]
      simpa [Tokens.toList, Closes] using ih
    | statement head body =>
      rw [closers, Pending.closer, List.singleton_append, Tokens.plain_rightBrace]
      simpa [Tokens.toList, Closes] using ih
    | operand | negation | value | comparand => exact ih

/-- After a minus a name will do, and after `while` an empty block, which both begin no expression. -/
theorem exists_completion_of_opens (hb : 0 < bound) (hs : s.begun ≤ bound) (ho : s.control.Opens)
    (hn : ∀ floor, s.control ≠ .start floor) :
    ∃ cs nodes, run bound s (Tokens.plain cs) = .ok nodes := by
  obtain ⟨control, frames, done⟩ := s
  cases control with
  | start floor => exact absurd rfl (hn floor)
  | negated floor =>
    have hword : Text.IsWord "a" := ⟨'a', [], rfl, rfl, by simp⟩
    have hp : Tokens.plain ('a' :: ' ' :: closers frames) =
        .cons { kind := .identifier, text := "a" } (Tokens.plain (' ' :: closers frames)) :=
      Text.spells_identifier hword rfl _ (Text.follows_of_separated (Text.separated_cons rfl))
    obtain ⟨nodes, hnodes⟩ : Completes ⟨.atom floor (.negative (.identifier "a")), frames, done⟩
        (closers frames) :=
      .of_closing _ (fun t ht => ht.moves_atom) (completes_complete frames _ _)
    refine ⟨'a' :: ' ' :: closers frames, nodes, ?_⟩
    rw [hp, Tokens.plain_blank rfl]
    simpa [run, feed] using run_eq_of_closes (closes_of_mem_closers frames) hb (by exact hs) hnodes
  | loop floor =>
    obtain ⟨nodes, hnodes⟩ : Completes ⟨.loop floor, frames, done⟩
        ('\x7b' :: '\x7d' :: closers frames) :=
      .of_moves (.single (.loopBody rfl)) (Tokens.plain_leftBrace _) completes_opening
    refine ⟨_, nodes, run_eq_of_closes ?_ hb hs hnodes⟩
    rw [Tokens.plain_leftBrace, Tokens.plain_rightBrace]
    simpa [Tokens.toList, Closes] using closes_of_mem_closers frames
  | _ => cases ho

/-- Where an expression may begin, all quotes are closed, so what follows is scanned on its own. -/
theorem plain_append_of_opens {cs : List Char} (hn : '\x00' ∉ cs)
    (h : feedAll bound s (Tokens.plain cs).toList = .ok u) (ho : u.control.Opens) (more : List Char) :
    Tokens.plain (cs ++ '\n' :: more) = Tokens.plain cs ++ Tokens.plain more := by
  have hclosed : ¬ Lexeme.EndsOpen cs := by
    intro hopen
    obtain ⟨ts, body, hp, -⟩ := hopen.plain_append hn
    rw [hp, Tokens.toList_ofList] at h
    obtain ⟨v, -, hv⟩ := exists_feedAll_of_append h
    obtain ⟨w, hw, hu⟩ := exists_feed_of_feedAll_cons hv
    cases hu
    exact not_opens_of_feed_quoted hw ho
  rw [Tokens.plain_append hn hclosed (Text.separated_cons rfl), Tokens.plain_blank rfl]

/-! ## Texts -/

section Text

variable {text : String}

/-- A text whose bare tokens are refused as too deep is refused as too deep. -/
theorem exists_parse_eq_error {n : Nat}
    (h : run bound .initial (Tokens.plain text.toList) = .error e) (hp : e.problem = .tooDeep n) :
    ∃ e', parse bound text = .error e' ∧ e'.problem = .tooDeep n ∧ e'.incomplete = e.incomplete := by
  rw [run_plain] at h
  cases hparse : parse bound text with
  | ok nodes => simp [hparse, Except.mapError] at h
  | error e' =>
    obtain rfl : e'.bare = e := by simpa [hparse, Except.mapError] using h
    refine ⟨e', rfl, ?_, (ParseError.incomplete_bare e').symm⟩
    obtain ⟨problem, token, line⟩ := e'
    cases problem with
    | tooDeep => exact hp
    | _ => cases hp

/-- Commands cannot be scanned, so none is too deep. -/
theorem not_isCommand_of_tooDeep {n : Nat}
    (h : run bound .initial (Tokens.plain text.toList) = .error e) (hp : e.problem = .tooDeep n) :
    ¬ Repl.isCommand text := by
  intro hc
  have hhead : (Text.trimChars text.toList).head? = some ':' := by
    simpa [Repl.isCommand, Text.trim] using hc
  obtain ⟨rest, hrest⟩ : Text.trimChars text.toList <+: Text.dropBlanks text.toList :=
    List.rdropWhile_prefix _ _
  have hdrop : (Text.dropBlanks text.toList).head? = some ':' := by
    rw [← hrest, List.head?_append, hhead]
    rfl
  obtain ⟨failure, hf⟩ := Tokens.exists_plain_eq_failed hdrop
  rw [hf] at h
  cases h
  cases hp

/-- A text that is too deep at its end has a completion unless an expression has to begin there. -/
theorem exists_completion_iff_not_breaksOff (hb : 0 < bound) (hn : '\x00' ∉ text.toList)
    (h : run bound .initial (Tokens.plain text.toList) = .error e) (hp : e.problem = .tooDeep bound)
    (hi : e.incomplete) :
    (∃ more nodes, run bound .initial (Tokens.plain (text.toList ++ '\n' :: more)) = .ok nodes) ↔
      ¬ BreaksOff bound text := by
  have hkinds : ∀ t ∈ (Tokens.plain text.toList).toList, t.kind ≠ .endOfInput := fun t ht =>
    (Tokens.scanned_of_mem_plain ht).kind_ne_endOfInput
  obtain ⟨hfail, u, line, hu, hend⟩ := exists_feedAll_of_incomplete hkinds h hi
  have hopens := opens_of_tooDeep hend hp
  constructor
  · rintro ⟨more, nodes, hmore⟩ ⟨u', floor, hu', hc⟩
    obtain rfl : u = u' := by simpa [hu] using hu'
    have hdeep : bound < u.frames.length + 1 := by
      by_contra hle
      simp only [feed, hc, startWith, hle, and_false, if_false] at hend
      cases hend
      cases hp
    obtain ⟨e', he'⟩ := exists_error_of_continues_start (Tokens.continues_line _ more) hfail hu hc hb
      hdeep
    simp [he'] at hmore
  · intro hbreaks
    have hbegun : u.begun ≤ bound :=
      feedAll_preserves (P := fun s => s.begun ≤ bound) (fun hf hs => begun_le_of_feed hb hs hf) hu
        (Nat.zero_le bound)
    obtain ⟨more, nodes, hmore⟩ := exists_completion_of_opens hb hbegun hopens
      fun floor hc => hbreaks ⟨u, floor, hu, hc⟩
    have hlist : Tokens.plain text.toList = Tokens.ofList (Tokens.plain text.toList).toList :=
      Tokens.bare_eq_ofList hfail
    refine ⟨more, nodes, ?_⟩
    rw [plain_append_of_opens hn hu hopens, hlist, run_ofList_append, hu]
    exact hmore

end Text

/--
An expression that is too deep is reported for good if its first token is there: then no further lines
help, and a session does not wait for any. If the text ends instead, the error counts as incomplete.
For a text that breaks off where an expression has to begin, this is wrong, since no further lines
help; after a minus and after `while` some do.
-/
theorem incomplete_tooDeep_iff {bound : Nat} {text : String} {e : ParseError} (hb : 0 < bound)
    (h : parse bound text = .error e) (hp : e.problem = .tooDeep bound) :
    (e.incomplete = false ↔ ∃ t ∈ (Tokens.ofText text).significant.toList, e.token = some t) ∧
      (e.incomplete = false → ∀ more, ∃ e', parse bound (text ++ "\n" ++ more) = .error e' ∧
        e'.problem = .tooDeep bound ∧ e'.incomplete = false) ∧
      ('\x00' ∉ text.toList → e.incomplete →
        ((∀ more nodes, parse bound (text ++ "\n" ++ more) ≠ .ok nodes) ↔ BreaksOff bound text)) ∧
      Repl.isIncomplete bound text = e.incomplete := by
  have hrun : run bound .initial (Tokens.plain text.toList) = .error e.bare := by
    rw [run_plain, h]
    rfl
  have hbare : e.bare.problem = .tooDeep bound := by simp [ParseError.bare, hp, ParseProblem.bare]
  refine ⟨⟨fun hi => ?_, ?_⟩, fun hi more => ?_, fun hn hi => ?_, ?_⟩
  · exact exists_mem_of_not_incomplete h hi (by simp [hp])
  · rintro ⟨t, ht, he⟩
    have hmem : t.bare ∈ (Tokens.plain text.toList).toList := by
      rw [Tokens.plain, Tokens.toList_bare]
      exact List.mem_map_of_mem ht
    simpa [ParseError.incomplete, he] using (Tokens.scanned_of_mem_plain hmem).kind_ne_endOfInput
  · obtain ⟨e', he', hp', hi'⟩ := exists_error_of_continues (Tokens.continues_line _ more.toList) hrun
      (by simpa using hi)
    have hmore : run bound .initial (Tokens.plain (text ++ "\n" ++ more).toList) = .error e' := by
      simpa using he'
    obtain ⟨e'', hparse, hp'', hi''⟩ := exists_parse_eq_error hmore (hp'.trans hbare)
    exact ⟨e'', hparse, hp'', hi''.trans hi'⟩
  · have hiff := exists_completion_iff_not_breaksOff hb hn hrun hbare (by simpa using hi)
    rw [← not_iff_not, ← hiff]
    simp only [ne_eq, parse_eq_ok_iff, not_forall, not_not, String.toList_append]
    constructor
    · rintro ⟨more, nodes, hmore⟩
      exact ⟨more.toList, nodes, by simpa using hmore⟩
    · rintro ⟨more, nodes, hmore⟩
      exact ⟨String.ofList more, nodes, by simpa using hmore⟩
  · simp [Repl.isIncomplete, not_isCommand_of_tooDeep hrun hbare, h]

/-- With a bound of one, `((` is refused for good, and `(` is said to be incomplete but is not. -/
theorem incomplete_tooDeep_iff_paren :
    (∃ e, parse 1 "((" = .error e ∧ e.problem = .tooDeep 1 ∧ Repl.isIncomplete 1 "((" = false ∧
      ∀ more, ∃ e', parse 1 ("((" ++ "\n" ++ more) = .error e' ∧ e'.incomplete = false) ∧
      ∃ e, parse 1 "(" = .error e ∧ e.problem = .tooDeep 1 ∧ Repl.isIncomplete 1 "(" = true ∧
        ∀ more nodes, parse 1 ("(" ++ "\n" ++ more) ≠ .ok nodes := by
  have htwo : parse 1 "((" = .error (.atToken { kind := .leftParen, line := 1 } (.tooDeep 1)) := by cbv
  have hone : parse 1 "(" = .error (.atToken (Token.endOfInput 1) (.tooDeep 1)) := by cbv
  have hbreaks : BreaksOff 1 "(" := by
    refine ⟨⟨.start .default, [⟨.group, .default⟩], []⟩, .default, ?_, rfl⟩
    cbv
  obtain ⟨-, hmore, -, hwait⟩ := incomplete_tooDeep_iff (by decide) htwo rfl
  obtain ⟨-, -, hnone, hwait'⟩ := incomplete_tooDeep_iff (by decide) hone rfl
  refine ⟨⟨_, htwo, rfl, hwait, fun more => ?_⟩, _, hone, rfl, hwait', (hnone (by decide) rfl).mpr hbreaks⟩
  obtain ⟨e', he', -, hi'⟩ := hmore rfl more
  exact ⟨e', he', hi'⟩

end Parser

end Scriptlet
