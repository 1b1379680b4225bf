import Scriptlet.Proofs.Completion
import Scriptlet.Proofs.Parser.Shape
import Scriptlet.Proofs.Session.Trace

/-!
# Texts in chunks

A line break does not end a statement, yet two texts that both parse can be put on lines after each
other: at the end of the first one everything that is open can be closed, and a token that starts the
second one closes it just as the end does, unless it is a minus sign, which goes on with an operand,
or a word that goes on with a conditional. So it makes no difference whether a text is run as a whole
or in chunks.

## Main definitions

* `Parser.State.onto`: a state with more statements in front of those that it has read
* `Parser.Begins`: a token that can only begin a statement

## Main statements

* `Parser.run_onto`: the statements that were read before make no difference
* `Parser.Begins.moves_top`: a token that begins a statement closes whatever the end closes
* `Parser.parse_append_line`: the statements of two texts on further lines
* `Session.trace_append`: the steps of statements in chunks
* `Session.run_append_line`: running two chunks is running both as one text
-/

namespace Scriptlet

/-- Only a quote can leave a text open. -/
theorem Lexeme.EndsOpen.mem {cs : List Char} (h : EndsOpen cs) : '"' ∈ cs := by
  induction h with
  | here h ho =>
    obtain ⟨body, rfl, -⟩ := ho.eq_cons h
    exact List.mem_cons_self
  | later h _ _ ih =>
    rw [← span_append_rest h]
    exact List.mem_append_right _ ih

namespace Parser

variable {bound : Nat} {t : Token} {s u : State} {floor : Precedence} {frames : List Frame}
  {before done nodes : List Node}

/-! ## Statements that were read before -/

/-- The same state with further statements read before. -/
def State.onto (before : List Node) (s : State) : State := { s with done := before ++ s.done }

theorem Move.onto (h : Move t s u) : Move t (s.onto before) (u.onto before) := by
  cases h with
  | last hp =>
    simp only [State.onto, ← List.append_assoc]
    exact .last hp
  | _ => constructor <;> assumption

theorem Moves.onto (h : Moves t s u) : Moves t (s.onto before) (u.onto before) :=
  Relation.ReflTransGen.lift (State.onto before) (fun _ _ => Move.onto) s u h

theorem startWith_onto : startWith bound floor frames (before ++ done) t =
    (startWith bound floor frames done t).map (State.onto before) := by
  unfold startWith
  repeat' split
  all_goals rfl

theorem Settled.feed_onto (h : Settled t s) :
    feed bound (s.onto before) t = (feed bound s t).map (State.onto before) := by
  cases h with
  | start => exact startWith_onto
  | negated hk => rcases hk with hk | hk <;> simp [feed, State.onto, hk, Except.map]
  | named hk | atom hk => simp [feed, State.onto, hk, compare, Except.map]
  | operator hp => simp [feed, State.onto, deliver_of_lt hp, Except.map]
  | group hp =>
    simp only [feed, State.onto]
    rw [deliver, deliver]
    simp only [hp, if_false]
    split <;> rfl
  | opening =>
    simp only [feed, State.onto, openBlock]
    split <;> rfl
  | block hk =>
    rcases hk with hk | hk
    · simp only [feed, State.onto, inBlock, hk]
      split <;> rfl
    · simp [feed, State.onto, inBlock, hk, Except.map]
  | branches hk =>
    simp only [feed, State.onto, hk, if_true]
    split
    · rfl
    · split <;> rfl
  | top hk => simp [feed, State.onto, atTop, hk, Except.map]

theorem feed_onto (bound : Nat) (before : List Node) (s : State) (t : Token) :
    feed bound (s.onto before) t = (feed bound s t).map (State.onto before) := by
  obtain ⟨u, hm, hu⟩ := settles t s
  rw [Moves.feed_eq hm, Moves.feed_eq hm.onto, hu.feed_onto]

/-- The statements that were read before make no difference to those that follow. -/
theorem run_onto (before : List Node) (toks : Tokens) :
    run bound (s.onto before) toks = (run bound s toks).map (before ++ ·) := by
  induction toks generalizing s with
  | done line =>
    simp only [run, feed_onto]
    cases feed bound s (Token.endOfInput line) <;> rfl
  | failed e => rfl
  | cons t rest ih =>
    simp only [run, feed_onto]
    cases feed bound s t with
    | error e => rfl
    | ok u => exact ih

/-! ## Between two statements -/

/-- A token that goes on with nothing: it is no operator, no brace and no word of a branch. -/
structure Begins (t : Token) : Prop where
  notAssign : t.kind ≠ .assign
  notEquals : t.kind ≠ .equals
  notElse : t.isKeyword .elseWord = false
  notElif : t.isKeyword .elifWord = false
  precedence : t.precedence = .default

theorem Begins.not_lt (h : Begins t) (floor : Precedence) : ¬ floor < t.precedence := by
  rw [h.precedence]
  exact floor.not_lt_default

/-- The tokens that a text can start with, less those that could go on with a statement. -/
theorem begins_of_feed (h : feed bound .initial t = .ok u) (hk : t.kind ≠ .endOfInput)
    (hm : t.kind ≠ .subtract) (he : t.isKeyword .elseWord = false)
    (hi : t.isKeyword .elifWord = false) : Begins t := by
  have hstart : startWith bound .default [] [] t = .ok u := by
    simpa [feed, State.initial, atTop, hk] using h
  have hkind : t.kind = .number ∨ t.kind = .leftParen ∨ t.kind = .identifier ∨ t.kind = .literal := by
    obtain ⟨v, -, hs⟩ | ⟨problem, hp⟩ := startWith_outcome bound .default [] [] t
    · cases hs with
      | minus hs => exact absurd hs hm
      | number hs | leftParen hs | identifier hs | literal hs => simp [hs]
      | tested _ hs | elseWord hs | whileWord hs => simp [(Token.isKeyword_iff.mp hs).1]
    · simp [hstart] at hp
  rcases hkind with hs | hs | hs | hs <;>
    exact ⟨by simp [hs], by simp [hs], he, hi, by simp [Token.precedence, hs, Token.Kind.precedence]⟩

/-- A move of the end is a move of `t`, unless it starts an expression that the end cannot read. -/
theorem Begins.move {line : Nat} (hb : Begins t) (h : Move (Token.endOfInput line) s u) :
    Move t s u ∨ ∃ floor, u.control = .start floor := by
  cases h with
  | name => exact .inl (.name hb.notAssign)
  | atom => exact .inl (.atom hb.notEquals)
  | chain => exact .inl (.chain hb.notElse hb.notElif)
  | binary => exact .inl (.binary (hb.not_lt _))
  | negative => exact .inl (.negative (hb.not_lt _))
  | assignment => exact .inl (.assignment (hb.not_lt _))
  | condition => exact .inl (.condition (hb.not_lt _))
  | test => exact .inl (.test (hb.not_lt _))
  | statement => exact .inl (.statement (hb.not_lt _))
  | last => exact .inl (.last (hb.not_lt _))
  | fresh he => exact absurd rfl he
  | inside _ he => exact absurd rfl he
  | operand | loopTest => exact .inr ⟨_, rfl⟩
  | loopBody hk => cases hk

theorem not_moves_of_start (hs : s.control = .start floor) (h : Moves t s u) : u = s := by
  obtain rfl | ⟨v, hm, -⟩ := Relation.ReflTransGen.cases_head h
  · rfl
  · cases hm <;> cases hs

/-- The induction is on the moves of the end, from the first one on. -/
theorem Begins.moves_top {line : Nat} (hb : Begins t)
    (h : Moves (Token.endOfInput line) s ⟨.top, frames, nodes⟩) : Moves t s ⟨.top, frames, nodes⟩ := by
  induction h using Relation.ReflTransGen.head_induction_on with
  | refl => exact .refl
  | head hm hrest ih =>
    rcases hb.move hm with hm | ⟨floor, hu⟩
    · exact .head hm ih
    · have htop := not_moves_of_start hu hrest
      rw [← htop] at hu
      cases hu

/-- When a text has been parsed, its end moves the state after its last token to the top. -/
theorem exists_moves_top_of_parse {text : String} (h : parse bound text = .ok nodes) :
    ∃ ts u line, Tokens.plain text.toList = Tokens.ofList ts ∧ feedAll bound .initial ts = .ok u ∧
      Moves (Token.endOfInput line) u (State.initial.onto nodes) := by
  obtain ⟨hfail, u, line, frames, hu, hm⟩ := exists_feedAll_of_run (parse_eq_ok_iff.mp h)
  refine ⟨(Tokens.plain text.toList).toList, u, line, Tokens.bare_eq_ofList hfail, hu, ?_⟩
  have hproper : ∀ _ : Token, u.Proper :=
    @feedAll_induction bound .initial u (fun _ _ s => s.Proper) Token.Scanned _
      (fun hm hs => hm.proper hs) (fun ht hshift hs _ => hshift.proper ht hs)
      (fun t => Tokens.scanned_of_mem_plain) hu [] fun _ => State.proper_initial
  have htop : State.Proper ⟨.top, frames, nodes⟩ :=
    hm.induction (fun hmove hs => hmove.proper hs) (hproper default)
  obtain rfl : frames = [] := htop.top rfl
  simpa [State.onto, State.initial] using hm

theorem begins_endOfInput (line : Nat) : Begins (Token.endOfInput line) :=
  ⟨by simp [Token.endOfInput], by simp [Token.endOfInput], rfl, rfl, rfl⟩

/-- What a text that parses starts with begins a statement, if it is none of the three exceptions. -/
theorem begins_of_parse {text : String} (h : parse bound text = .ok nodes)
    (hb : ∀ t ∈ (Tokens.ofText text).significant.toList.head?,
      t.kind ≠ .subtract ∧ ¬ t.isKeyword .elseWord ∧ ¬ t.isKeyword .elifWord) :
    ∀ t ∈ (Tokens.plain text.toList).first?, Begins t := by
  have hrun := parse_eq_ok_iff.mp h
  cases htoks : Tokens.plain text.toList with
  | done line =>
    rintro t ⟨⟩
    exact begins_endOfInput line
  | failed e => nofun
  | cons first rest =>
    rintro t ⟨⟩
    have hlist : (Tokens.plain text.toList).toList = first :: rest.toList := by
      rw [htoks, Tokens.toList]
    have hkind : first.kind ≠ .endOfInput := by
      refine (Tokens.scanned_of_mem_plain (?_ : first ∈ (Tokens.plain text.toList).toList)).kind_ne_endOfInput
      rw [hlist]
      exact List.mem_cons_self
    obtain ⟨source, hsource, rfl⟩ : ∃ source ∈ (Tokens.ofText text).significant.toList.head?,
        source.bare = first := by
      rw [Tokens.plain, Tokens.toList_bare] at hlist
      have hhead := congrArg List.head? hlist
      simpa [Tokens.ofText, List.head?_map] using hhead
    obtain ⟨hm, he, hi⟩ := hb source hsource
    rw [htoks, run] at hrun
    cases hf : feed bound .initial source.bare with
    | error e => simp [hf] at hrun
    | ok u => exact begins_of_feed hf hkind hm (by simpa using he) (by simpa using hi)

/-- The statements of two texts on lines after each other. -/
theorem parse_append_line {text text' : String} {nodes' : List Node}
    (h : parse bound text = .ok nodes) (h' : parse bound text' = .ok nodes')
    (hn : '\x00' ∉ text.toList) (ho : ¬ Lexeme.EndsOpen text.toList)
    (hb : ∀ t ∈ (Tokens.ofText text').significant.toList.head?,
      t.kind ≠ .subtract ∧ ¬ t.isKeyword .elseWord ∧ ¬ t.isKeyword .elifWord) :
    parse bound (text ++ "\n" ++ text') = .ok (nodes ++ nodes') := by
  obtain ⟨ts, u, line, hts, hu, hm⟩ := exists_moves_top_of_parse h
  have hrun := parse_eq_ok_iff.mp h'
  have htokens : Tokens.plain (text ++ "\n" ++ text').toList =
      Tokens.ofList ts ++ Tokens.plain text'.toList := by
    have hsep : Text.Separated ('\n' :: text'.toList) := Text.separated_cons rfl
    rw [← hts, ← Tokens.plain_blank (c := '\n') rfl text'.toList, ← Tokens.plain_append hn ho hsep]
    simp
  have hfirst (t) (ht : t ∈ (Tokens.plain text'.toList).first?) :
      Moves t u (State.initial.onto nodes) :=
    (begins_of_parse h' hb t ht).moves_top hm
  rw [parse_eq_ok_iff, htokens, run_ofList_append, hu]
  simp only
  rw [run_eq_of_moves hfirst, run_onto, hrun]
  rfl

end Parser

namespace Session

open Evaluation

variable {cfg : Config} {nodes nodes' : List Node} {s : State}

/-- Under the policy `continue` only a statement that does not finish keeps the rest from running. -/
theorem length_trace (r : Report) (hp : cfg.policy = .continue)
    (hf : (statements cfg nodes r s).2.1 ≠ some (.unfinished r.source)) :
    (trace cfg nodes s).length = nodes.length := by
  induction nodes generalizing r s with
  | nil => rfl
  | cons n ns ih =>
    unfold statements at hf
    unfold trace
    cases he : evaluate cfg.passes n s with
    | done v u =>
      simp only [he] at hf
      simp [ih _ hf]
    | failed e u =>
      simp only [he, hp] at hf
      simp [hp, ih _ hf]
    | unfinished => simp [he] at hf

/-- Statements in chunks are run one after the other if all of the first ones are run. -/
theorem trace_append (hp : cfg.policy = .continue)
    (hf : (trace cfg nodes s).length = nodes.length) :
    trace cfg (nodes ++ nodes') s =
      trace cfg nodes s ++ trace cfg nodes' (leave s (trace cfg nodes s)) := by
  induction nodes generalizing s with
  | nil => rfl
  | cons n ns ih =>
    simp only [List.cons_append, trace] at hf ⊢
    cases he : evaluate cfg.passes n s with
    | done v u =>
      simp only [he, List.length_cons, Nat.add_right_cancel_iff] at hf
      simp [ih hf, leave]
    | failed e u =>
      simp only [he, hp, List.length_cons, Nat.add_right_cancel_iff] at hf
      simp [hp, ih hf, leave]
    | unfinished => simp [he] at hf

/-- All statements of a source are run unless it is reported as not finished. -/
theorem length_trace_of_run {src : Source} (hp : cfg.policy = .continue)
    (h : Parser.parse cfg.maxDepth.toNat src.text = .ok nodes)
    (hf : (run cfg src s).error ≠ some (.unfinished src.name)) :
    (trace cfg nodes s).length = nodes.length := by
  refine length_trace { source := src.name } hp fun hu => hf ?_
  simp [run, h, hu]

/-- The steps of two texts on lines after each other. -/
theorem steps_append_line {text text' name : String} (hp : cfg.policy = .continue)
    (h : Parser.parse cfg.maxDepth.toNat text = .ok nodes)
    (h' : Parser.parse cfg.maxDepth.toNat text' = .ok nodes')
    (hboth : Parser.parse cfg.maxDepth.toNat (text ++ "\n" ++ text') = .ok (nodes ++ nodes'))
    (hf : (run cfg ⟨name, text⟩ s).error ≠ some (.unfinished name)) (name' whole : String) :
    steps cfg ⟨whole, text ++ "\n" ++ text'⟩ s =
      steps cfg ⟨name, text⟩ s ++ steps cfg ⟨name', text'⟩ (run cfg ⟨name, text⟩ s).state := by
  simp only [steps, h, h', hboth, state_run]
  exact trace_append hp (length_trace_of_run hp h hf)

/--
Two texts that parse are parsed and run alike in two chunks and on lines after each other, provided
that the first one ends outside of quotes and without the character NUL, and that the second one
starts neither with a minus sign nor with a word that goes on with a conditional.
-/
theorem run_append_line {bound : Nat} {text text' : String}
    (h : Parser.parse bound text = .ok nodes) (h' : Parser.parse bound text' = .ok nodes')
    (hn : '\x00' ∉ text.toList) (ho : ¬ Lexeme.EndsOpen text.toList)
    (hb : ∀ t ∈ (Tokens.ofText text').significant.toList.head?,
      t.kind ≠ .subtract ∧ ¬ t.isKeyword .elseWord ∧ ¬ t.isKeyword .elifWord) :
    Parser.parse bound (text ++ "\n" ++ text') = .ok (nodes ++ nodes') ∧
      ∀ (cfg : Config) (s : State) (name name' whole : String), cfg.policy = .continue →
        cfg.maxDepth.toNat = bound →
        (run cfg ⟨name, text⟩ s).error ≠ some (.unfinished name) →
        let first := run cfg ⟨name, text⟩ s
        let second := run cfg ⟨name', text'⟩ first.state
        let both := run cfg ⟨whole, text ++ "\n" ++ text'⟩ s
        both.report.statements = first.report.statements ++ second.report.statements ∧
          both.report.failures = first.report.failures + second.report.failures ∧
          both.state.env = second.state.env ∧ both.state.warnings = second.state.warnings := by
  have hboth := Parser.parse_append_line h h' hn ho hb
  refine ⟨hboth, ?_⟩
  rintro cfg s name name' whole hp rfl hf first second both
  have hsteps := steps_append_line hp h h' hboth hf name' whole
  have hstatements :
      both.report.statements = first.report.statements ++ second.report.statements := by
    simp only [both, first, second, statements_run, hsteps, List.map_append]
  have hstate : both.state = second.state :=
    calc both.state = leave s (steps cfg ⟨whole, text ++ "\n" ++ text'⟩ s) := state_run ..
      _ = leave first.state (steps cfg ⟨name', text'⟩ first.state) := by
        rw [hsteps, leave_append, ← state_run]
      _ = second.state := (state_run ..).symm
  refine ⟨hstatements, ?_, by rw [hstate], by rw [hstate]⟩
  rw [failures_run, failures_run, failures_run, hstatements, List.countP_append]

theorem run_append_line_branch :
    Parser.parse 3 ("if x == y \x7b z \x7d" ++ "\n" ++ "(a )\nb = true") =
        .ok ([.ifElse (.condition (.identifier "x") (.identifier "y")) [.identifier "z"] .done] ++
          [.identifier "a", .assignment (some "b") (.literal "true" .true)]) ∧
      let first := run ⟨.continue, 3, 2⟩ ⟨"first", "if x == y \x7b z \x7d"⟩ {}
      let second := run ⟨.continue, 3, 2⟩ ⟨"second", "(a )\nb = true"⟩ first.state
      let both := run ⟨.continue, 3, 2⟩
        ⟨"both", "if x == y \x7b z \x7d" ++ "\n" ++ "(a )\nb = true"⟩ {}
      both.report.statements = first.report.statements ++ second.report.statements ∧
        both.report.failures = first.report.failures + second.report.failures ∧
        both.state.env = second.state.env ∧ both.state.warnings = second.state.warnings := by
  have h : Parser.parse 3 "if x == y \x7b z \x7d" =
      .ok [.ifElse (.condition (.identifier "x") (.identifier "y")) [.identifier "z"] .done] := by
    cbv
  have h' : Parser.parse 3 "(a )\nb = true" =
      .ok [.identifier "a", .assignment (some "b") (.literal "true" .true)] := by cbv
  have ho : ¬ Lexeme.EndsOpen "if x == y \x7b z \x7d".toList := fun ho => absurd ho.mem (by decide)
  have hhead : (Tokens.ofText "(a )\nb = true").significant.toList.head? =
      some { kind := .leftParen, line := 1 } := by cbv
  have hf : (run ⟨.continue, 3, 2⟩ ⟨"first", "if x == y \x7b z \x7d"⟩ {}).error ≠
      some (.unfinished "first") := by
    have he : (run ⟨.continue, 3, 2⟩ ⟨"first", "if x == y \x7b z \x7d"⟩ {}).error =
        some (.statements "first" 1) := by
      simp only [run, show (3 : Int).toNat = 3 from rfl, h]
      rfl
    simp [he]
  obtain ⟨hparse, hrun⟩ := run_append_line h h' (by decide) ho (by simp [hhead, Token.isKeyword])
  exact ⟨hparse, hrun _ {} "first" "second" "both" rfl rfl hf⟩

end Session

end Scriptlet
