import Scriptlet.Proofs.Number.Bits
import Scriptlet.Proofs.Scanning

/-!
# Blanks between tokens do not matter

Two texts with the same tokens are parsed into the same nodes, or they are refused with errors that
differ at most in their lines. Two numbers count as the same if they compare as equal: the numbers of
a text have no sign, so these are the same floats.

A run of blanks between tokens can be replaced by any other one. A blank ends the lexeme in front of
it, whichever blank it is, unless it stands inside of quotes.

## Main definitions

* `Scanner.Streams`: the answers of a scanner, one call after the other
* `Tokens.sameAs`: streams of the same tokens that end in the same way
* `ParseError.Alike`: errors that differ at most in their lines
* `Parser.Agree`: answers that are equal, or errors that are alike
* `Lexeme.Cut`: what is left of a text after some of its tokens
* `Text.IsGap`: a run of blanks

## Main statements

* `Scanner.streams_ofText_iff`: the tokens of a text are the scanner's answers
* `Parser.agree_run`: streams of the same tokens are parsed alike
* `Lexeme.Cut.plain_eq`: the tokens on both sides of a gap, whatever the gap is
* `Parser.agree_parse`: layout does not matter
-/

namespace Scriptlet

/-- The same tokens up to the lines, and in the end the same failure, or none in both. -/
def Tokens.sameAs : Tokens → Tokens → Bool
  | done _, done _ => true
  | failed e, failed e' => e.problem.message == e'.problem.message
  | cons t a, cons t' b => t.sameAs t' && a.sameAs b
  | _, _ => false

/-! ## The tokens of a text -/

namespace Scanner

/-- Asked again and again, the scanner answers with these tokens, and then it ends or fails. -/
inductive Streams : Scanner → Tokens → Prop where
  | done {s : Scanner} {t : Token} (h : s.next.1 = some t) (hk : t.kind = .endOfInput) :
      Streams s (.done t.line)
  | failed {s : Scanner} {e : ScanError} (h : s.next.1 = none) (he : s.next.2.failure = some e) :
      Streams s (.failed e)
  | cons {s : Scanner} {t : Token} {rest : Tokens} (h : s.next.1 = some t)
      (hk : t.kind ≠ .endOfInput) (hs : Streams s.next.2 rest) : Streams s (.cons t rest)

theorem Streams.unique {s : Scanner} {a b : Tokens} (ha : Streams s a) (hb : Streams s b) : a = b := by
  induction ha generalizing b with
  | done => cases hb <;> grind
  | failed => cases hb <;> grind
  | cons _ _ _ ih => cases hb <;> grind

theorem streams_ofChars (cs : List Char) (line : Nat) :
    Streams ⟨cs, line, none⟩ (Tokens.ofChars cs line) := by
  fun_induction Tokens.ofChars cs line with
  | case1 cs line hf => exact .done (t := Token.endOfInput line) (by simp [next, hf]) rfl
  | case2 cs line l hf p hp => exact .failed (by simp [next, hf, hp]) (by simp [next, hf, hp])
  | case3 cs line l hf t ht hs =>
    have he : t.kind = .endOfInput := by
      simp only [Lexeme.read, hs, Except.ok.injEq] at ht
      rw [← ht]
    exact .done (t := { t with line }) (by simp [next, hf, ht]) he
  | case4 cs line l hf t ht hs ih =>
    have hnext : next ⟨cs, line, none⟩ =
        (some { t with line }, ⟨l.remainder, line + l.span.count '\n', none⟩) := by
      simp [next, hf, ht]
    refine .cons (congrArg Prod.fst hnext) ?_ (by rw [hnext]; exact ih)
    by_cases hw : t.kind = .whitespace
    · simp [hw]
    · exact (Lexeme.scanned_of_read hf ht hs hw).kind_ne_endOfInput

/-- The tokens of a text are the scanner's answers. -/
theorem streams_ofText_iff {text : String} {toks : Tokens} :
    (ofText text).Streams toks ↔ toks = Tokens.ofText text := by
  constructor
  · intro h
    exact h.unique (streams_ofChars text.toList 1)
  · rintro rfl
    exact streams_ofChars text.toList 1

end Scanner

/-- The number of a token that is read is zero, or a decimal that is not out of range. -/
theorem Lexeme.number_of_read {l : Lexeme} {t : Token} (h : l.read = .ok t) :
    t.number = 0 ∨ ∃ d : Decimal, t.number = d.toFloat ∧ d.toFloat.isInf = false := by
  cases hr : l.rule with
  | number =>
    simp only [read, hr] at h
    split at h
    · cases h
    · split at h
      · cases h
      · next hi =>
        cases h
        exact .inr ⟨_, rfl, by simpa using hi⟩
  | word =>
    simp only [read, hr] at h
    split at h <;> cases h <;> exact .inl rfl
  | unknown => simp [read, hr] at h
  | quoted | symbol | blank | stop =>
    simp only [read, hr] at h
    cases h
    exact .inl rfl

/-- The number of a token that is read has no sign. -/
theorem Lexeme.isNegative_of_read {l : Lexeme} {t : Token} (h : l.read = .ok t) :
    Number.isNegative t.number = false := by
  obtain hz | ⟨d, hd, -⟩ := number_of_read h
  · rw [hz]
    decide
  · rw [hd]
    exact Number.isNegative_toFloat d

/-- The numbers of a text have no sign. -/
theorem Tokens.isNegative_of_mem {text : String} {t : Token}
    (h : t ∈ (ofText text).significant.toList) : Number.isNegative t.number = false := by
  have hm : t.bare ∈ (plain text.toList).toList := by
    rw [plain, toList_bare]
    exact List.mem_map_of_mem h
  obtain ⟨ds, l, -, hr, -⟩ := exists_read_of_mem_plain hm
  have hn : Number.isNegative t.bare.number = false := Lexeme.isNegative_of_read hr
  exact hn

/-- Without signs the same tokens differ at most in their lines. -/
theorem Token.bare_eq_of_sameAs {t t' : Token} (h : t.sameAs t')
    (ht : Number.isNegative t.number = false) (ht' : Number.isNegative t'.number = false) :
    t.bare = t'.bare := by
  obtain ⟨kind, number, text, keyword, line⟩ := t
  obtain ⟨kind', number', text', keyword', line'⟩ := t'
  simp only [sameAs, Bool.and_eq_true] at h
  obtain ⟨⟨⟨hkind, hnumber⟩, htext⟩, hkeyword⟩ := h
  obtain rfl := beq_iff_eq.mp hkind
  obtain rfl := Number.eq_of_beq_unsigned hnumber ht ht'
  obtain rfl := beq_iff_eq.mp htext
  obtain rfl := beq_iff_eq.mp hkeyword
  rfl

/-! ## Errors up to their lines -/

namespace ParseError

/-- Errors that differ at most in their lines. -/
structure Alike (e e' : ParseError) : Prop where
  kind : e.kind = e'.kind
  detail : e.detail = e'.detail
  condition : e.condition = e'.condition
  incomplete : e.incomplete = e'.incomplete
  token : e.token.map Token.bare = e'.token.map Token.bare

theorem kind_bare (e : ParseError) : e.bare.kind = e.kind := by
  obtain ⟨problem, token, line⟩ := e
  cases problem <;> rfl

theorem condition_bare (e : ParseError) : e.bare.condition = e.condition := by
  obtain ⟨problem, token, line⟩ := e
  cases problem <;> rfl

theorem detail_bare (e : ParseError) : e.bare.detail = e.detail := by
  obtain ⟨problem, token, line⟩ := e
  cases problem <;> cases token <;> rfl

theorem alike_of_bare_eq {e e' : ParseError} (h : e.bare = e'.bare) : e.Alike e' where
  kind := by rw [← kind_bare e, h, kind_bare]
  detail := by rw [← detail_bare e, h, detail_bare]
  condition := by rw [← condition_bare e, h, condition_bare]
  incomplete := by rw [← incomplete_bare e, h, incomplete_bare]
  token := congrArg ParseError.token h

end ParseError

namespace Parser

variable {bound : Nat} {s : State} {t t' : Token} {a b : Tokens}

/-- Answers that are equal, or errors that differ at most in their lines. -/
inductive Agree {α : Type} : Except ParseError α → Except ParseError α → Prop where
  | ok (answer : α) : Agree (.ok answer) (.ok answer)
  | error {e e' : ParseError} (h : e.Alike e') : Agree (.error e) (.error e')

theorem Agree.bind {α β : Type} {x y : Except ParseError α} (h : Agree x y)
    {f g : α → Except ParseError β} (hfg : ∀ v, Agree (f v) (g v)) : Agree (x.bind f) (y.bind g) := by
  cases h with
  | ok v => exact hfg v
  | error he => exact .error he

theorem agree_of_mapError_bare {α : Type} {x y : Except ParseError α}
    (h : x.mapError ParseError.bare = y.mapError ParseError.bare) : Agree x y := by
  cases x with
  | error e =>
    cases y with
    | error e' => exact .error (ParseError.alike_of_bare_eq (Except.error.inj h))
    | ok v => cases h
  | ok v =>
    cases y with
    | error e' => cases h
    | ok v' =>
      cases h
      exact .ok v

/-- One step on the same token. -/
theorem agree_feed (h : t.bare = t'.bare) : Agree (feed bound s t) (feed bound s t') := by
  apply agree_of_mapError_bare
  rw [← feed_bare, ← feed_bare, h]

theorem run_done (line : Nat) :
    run bound s (.done line) = (feed bound s (.endOfInput line)).bind fun u => .ok u.done := by
  rw [run]
  cases feed bound s (.endOfInput line) <;> rfl

theorem run_cons : run bound s (.cons t a) = (feed bound s t).bind fun u => run bound u a := by
  rw [run]
  cases feed bound s t <;> rfl

/-- Streams of the same tokens are parsed alike, because the parser takes the same step on each. -/
theorem agree_run (h : a.sameAs b) (ha : ∀ t ∈ a.toList, Number.isNegative t.number = false)
    (hb : ∀ t ∈ b.toList, Number.isNegative t.number = false) :
    Agree (run bound s a) (run bound s b) := by
  -- The two runs are in the same state at each token, so the induction is over all states.
  induction a generalizing b s with
  | done line =>
    cases b with
    | failed e | cons t' b => cases h
    | done line' =>
      have hf : Agree (feed bound s (.endOfInput line)) (feed bound s (.endOfInput line')) :=
        agree_feed rfl
      rw [run_done, run_done]
      exact hf.bind fun u => .ok u.done
  | failed e =>
    cases b with
    | done line | cons t' b => cases h
    | failed e' => exact .error ⟨rfl, beq_iff_eq.mp h, rfl, rfl, rfl⟩
  | cons t a ih =>
    cases b with
    | done line | failed e => cases h
    | cons t' b =>
      obtain ⟨ht, hab⟩ := Bool.and_eq_true_iff.mp h
      simp only [Tokens.toList, List.mem_cons, forall_eq_or_imp] at ha hb
      have hf : Agree (feed bound s t) (feed bound s t') :=
        agree_feed (Token.bare_eq_of_sameAs ht ha.1 hb.1)
      rw [run_cons, run_cons]
      exact hf.bind fun u => ih hab ha.2 hb.2

theorem agree_parse_of_plain_eq {text text' : String}
    (h : Tokens.plain text.toList = Tokens.plain text'.toList) :
    Agree (parse bound text) (parse bound text') := by
  apply agree_of_mapError_bare
  rw [← run_plain, ← run_plain, h]

end Parser

/-! ## Gaps -/

/-- A run of blanks of the language. -/
def Text.IsGap (gap : List Char) : Prop :=
  gap ≠ [] ∧ ∀ c ∈ gap, c ∈ [' ', '\t', '\r', '\n']

namespace Lexeme

variable {cs ds : List Char}

/-- What is left of a text after some of its lexemes, each of which reads as a token. -/
inductive Cut : List Char → List Char → Prop where
  | refl {cs : List Char} : Cut cs cs
  | step {cs ds : List Char} {l : Lexeme} {t : Token} (h : first? cs = some l) (hr : l.read = .ok t)
      (hs : l.rule ≠ .stop) (hc : Cut l.rest ds) : Cut cs ds

theorem Cut.length_le (h : Cut cs ds) : ds.length ≤ cs.length := by
  induction h with
  | refl => exact le_rfl
  | step h _ _ _ ih => exact ih.trans (length_rest_lt h).le

theorem length_splitQuoted_lt (hne : cs ≠ []) : (splitQuoted cs).2.length < cs.length := by
  have happ := congrArg List.length (splitQuoted_append cs)
  have hpos : 0 < (splitQuoted cs).1.length := by
    cases cs with
    | nil => exact absurd rfl hne
    | cons c cs =>
      unfold splitQuoted
      split <;> simp
  simp only [List.length_append] at happ
  omega

/-- A quote that is open in front of a text runs into it. -/
theorem Open.length_rest_lt {l l' : Lexeme} (h : first? cs = some l) (ho : l.Open) (hne : ds ≠ [])
    (h' : first? (cs ++ ds) = some l') : l'.rest.length < ds.length := by
  obtain ⟨body, rfl, hb, -⟩ := ho.eq_cons h
  rw [List.cons_append, first?_eq_some_iff.mpr .quoted] at h'
  cases h'
  simp only [splitQuoted_append_of_not_mem hb]
  exact length_splitQuoted_lt hne

/-- The lexeme in front of a cut is found without what comes after the cut. -/
theorem Cut.exists_first? {l : Lexeme} (h : first? (cs ++ ds) = some l) (hc : Cut l.rest ds)
    (hne : ds ≠ []) (hd : Text.Separated ds) :
    ∃ l', first? cs = some l' ∧ ¬ l'.Open ∧ l = { l' with rest := l'.rest ++ ds } := by
  have hle := hc.length_le
  cases hf : first? cs with
  | none =>
    obtain rfl : cs = [] := by
      cases cs with
      | nil => rfl
      | cons c cs => simp [first?] at hf
    have hlt := Lexeme.length_rest_lt h
    simp only [List.nil_append] at hlt
    omega
  | some l' =>
    by_cases ho : l'.Open
    -- An open quote would swallow a part of what the cut leaves.
    · have hlt := ho.length_rest_lt hf hne h
      omega
    · rw [first?_append hf ho hd, Option.some.injEq] at h
      exact ⟨l', rfl, ho, h.symm⟩

/-- The tokens in front of a cut do not depend on what comes after it, as long as a blank does. -/
theorem Cut.exists_tokens (h : Cut (cs ++ ds) ds) (hne : ds ≠ []) (hd : Text.Separated ds) :
    ∃ ts, ∀ ds', Text.Separated ds' →
      Tokens.plain (cs ++ ds') = Tokens.ofList ts ++ Tokens.plain ds' := by
  generalize htext : cs ++ ds = text at h
  induction h generalizing cs with
  | refl =>
    obtain rfl : cs = [] := by simpa using htext
    exact ⟨[], fun ds' _ => rfl⟩
  | @step _ _ _ t h hr hs hc ih =>
    subst htext
    obtain ⟨l, hf, ho, rfl⟩ := Cut.exists_first? h hc hne hd
    obtain ⟨ts, hts⟩ := ih hne hd rfl
    rw [read_append l hd] at hr
    refine ⟨[t].filter (·.kind ≠ .whitespace) ++ ts, fun ds' hd' => ?_⟩
    have hread := (read_append l hd').trans hr
    rw [Tokens.plain_of_read (first?_append hf ho hd') hread hs, hts ds' hd', Tokens.ofList_append,
      Tokens.append_assoc]

end Lexeme

namespace Text

variable {gap : List Char}

theorem blank_of_mem {c : Char} (h : c ∈ [' ', '\t', '\r', '\n']) :
    Lexeme.singleRule c = .blank ∧ isBlank c := by
  simp only [List.mem_cons, List.not_mem_nil, or_false] at h
  rcases h with rfl | rfl | rfl | rfl <;> exact ⟨rfl, rfl⟩

theorem IsGap.separated (h : IsGap gap) (cs : List Char) : Separated (gap ++ cs) := by
  obtain ⟨hne, hall⟩ := h
  cases gap with
  | nil => exact absurd rfl hne
  | cons c gap => exact separated_cons (blank_of_mem (hall c List.mem_cons_self)).2

/-- Blanks in front of a text are no tokens. -/
theorem plain_append_of_blanks (h : ∀ c ∈ gap, c ∈ [' ', '\t', '\r', '\n']) (cs : List Char) :
    Tokens.plain (gap ++ cs) = Tokens.plain cs := by
  induction gap with
  | nil => rfl
  | cons c gap ih =>
    rw [List.cons_append, Tokens.plain_blank (blank_of_mem (h c List.mem_cons_self)).1]
    exact ih fun d hd => h d (List.mem_cons_of_mem _ hd)

end Text

/-- The tokens on both sides of a gap between tokens, whatever the gap is. -/
theorem Lexeme.Cut.plain_eq {before gap gap' after : List Char} (hg : Text.IsGap gap)
    (hg' : Text.IsGap gap') (h : Cut (before ++ (gap ++ after)) (gap ++ after)) :
    Tokens.plain (before ++ (gap ++ after)) = Tokens.plain (before ++ (gap' ++ after)) := by
  obtain ⟨ts, hts⟩ := h.exists_tokens (List.append_ne_nil_of_left_ne_nil hg.1 _) (hg.separated _)
  rw [hts _ (hg.separated _), hts _ (hg'.separated _), Text.plain_append_of_blanks hg.2,
    Text.plain_append_of_blanks hg'.2]

/--
Layout does not matter: texts with the same tokens are parsed alike, and so are two texts that differ
in one gap between tokens.
-/
theorem Parser.agree_parse (bound : Nat) :
    (∀ (text text' : String) (toks toks' : Tokens),
      (Scanner.ofText text).Streams toks → (Scanner.ofText text').Streams toks' →
      toks.significant.sameAs toks'.significant →
        Agree (parse bound text) (parse bound text')) ∧
    ∀ before gap gap' after : String, Text.IsGap gap.toList → Text.IsGap gap'.toList →
      Lexeme.Cut (before ++ gap ++ after).toList (gap ++ after).toList →
        Agree (parse bound (before ++ gap ++ after)) (parse bound (before ++ gap' ++ after)) := by
  constructor
  · intro text text' toks toks' htoks htoks' h
    obtain rfl := Scanner.streams_ofText_iff.mp htoks
    obtain rfl := Scanner.streams_ofText_iff.mp htoks'
    exact agree_run h (fun t => Tokens.isNegative_of_mem) (fun t => Tokens.isNegative_of_mem)
  · intro before gap gap' after hg hg' hc
    apply agree_parse_of_plain_eq
    simp only [String.toList_append, List.append_assoc] at hc ⊢
    exact hc.plain_eq hg hg'

theorem Parser.agree_parse_paren :
    ((Scanner.ofText "if x == 1.50 \x7b y = ( 2 \x7d").Streams
        (Tokens.ofText "if x == 1.50 \x7b y = ( 2 \x7d") ∧
      (Scanner.ofText "if\n x\t== 1.5\x7by\r\n= (2\x7d").Streams
        (Tokens.ofText "if\n x\t== 1.5\x7by\r\n= (2\x7d") ∧
      (Tokens.ofText "if x == 1.50 \x7b y = ( 2 \x7d").significant.sameAs
        (Tokens.ofText "if\n x\t== 1.5\x7by\r\n= (2\x7d").significant = true ∧
      Agree (parse 3 "if x == 1.50 \x7b y = ( 2 \x7d") (parse 3 "if\n x\t== 1.5\x7by\r\n= (2\x7d")) ∧
    Lexeme.Cut ("x \"a\n\"" ++ "\n" ++ "(1").toList ("\n" ++ "(1").toList ∧
      Agree (parse 3 ("x \"a\n\"" ++ "\n" ++ "(1")) (parse 3 ("x \"a\n\"" ++ "\t \r\n" ++ "(1")) := by
  have hsame : (Tokens.ofText "if x == 1.50 \x7b y = ( 2 \x7d").significant.sameAs
      (Tokens.ofText "if\n x\t== 1.5\x7by\r\n= (2\x7d").significant = true := by decide +kernel
  have hcut : Lexeme.Cut ("x \"a\n\"" ++ "\n" ++ "(1").toList ("\n" ++ "(1").toList :=
    .step rfl rfl (by decide) (.step rfl rfl (by decide) (.step rfl rfl (by decide) .refl))
  have hstreams (text : String) : (Scanner.ofText text).Streams (Tokens.ofText text) :=
    Scanner.streams_ofText_iff.mpr rfl
  have hagree := (agree_parse 3).1 _ _ _ _ (hstreams _) (hstreams _) hsame
  refine ⟨⟨hstreams _, hstreams _, hsame, hagree⟩, hcut, (agree_parse 3).2 _ _ _ _ ?_ ?_ hcut⟩
  · exact ⟨by simp, by simp⟩
  · exact ⟨by simp, by simp⟩

end Scriptlet
