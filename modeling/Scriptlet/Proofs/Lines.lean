import Scriptlet.Proofs.Partition

/-!
# Lines

Lines are counted from one, and a line ends with a newline, wherever that stands. The scanner counts
as it goes, through blanks and through quoted texts that go over several lines, so that the line of
a token is that of its first character, and the line of a failure that of the first character of
the lexeme that is refused. The parser blames a token of the scanner or its failure, and takes the
line from there.

## Main definitions

* `Scanner.lineAfter`: the line that is reached after some pieces of a text
* `Parser.Rejects`: a parse error is raised at a token, which all tokens before it can stand before

## Main statements

* `Lexeme.Longest.unique`: there is one longest lexeme at a place
* `Scanner.Partition.numbered`: the pieces that the scanner answers with have the right lines
* `Parser.exists_rejects_of_run`: a parse error is raised at a token or after all of them
* `Scanner.lines_ofText`: the lines of tokens, failures and parse errors are exact
-/

namespace Scriptlet

namespace Lexeme

variable {span span' rest rest' : List Char} {t t' : Token}

/-- There is one longest lexeme at a place. -/
theorem Longest.unique (hl : Longest span rest) (hl' : Longest span' rest')
    (ht : Means span t) (ht' : Means span' t') (happ : span ++ rest = span' ++ rest') :
    span = span' ∧ rest = rest' := by
  have hle : span.length ≤ span'.length := hl' span t (happ ▸ List.prefix_append span rest) ht
  have hge : span'.length ≤ span.length := hl span' t' (happ ▸ List.prefix_append span' rest') ht'
  exact List.append_inj happ (le_antisymm hle hge)

theorem Means.kind_ne_endOfInput (h : Means span t) : t.kind ≠ .endOfInput := by
  cases h with
  | symbol hk =>
    rintro rfl
    exact absurd hk (by decide)
  | number | keyword | identifier | quoted | opened | blank => nofun

end Lexeme

namespace Tokens

/-- The first lexeme decides how the tokens begin. -/
theorem ofChars_of_first? {cs : List Char} {l : Lexeme} (h : Lexeme.first? cs = some l) (line : Nat) :
    ofChars cs line =
      match l.read with
      | .error p => .failed ⟨p, line⟩
      | .ok t =>
        if l.rule = .stop then .done line
        else .cons { t with line } (ofChars l.remainder (line + l.span.count '\n')) := by
  rw [ofChars.eq_def]
  split
  · simp_all
  · rename_i l' h'
    obtain rfl : l = l' := by simpa [h] using h'
    rfl

theorem ofChars_nil (line : Nat) : ofChars [] line = .done line := by
  rw [ofChars]
  split
  · rfl
  · rename_i h
    cases h

end Tokens

namespace Scanner

open Lexeme

variable {s : Scanner} {ts : List Token} {t : Token} {last : Option Token} {line : Nat}
  {failure : Option ScanError} {text span rest tail : List Char} {p : ScanProblem}
  {pieces before after : List (List Char × Token)}

/-! ## One call -/

/-- A token that is no end of the text is read from the longest lexeme, and has the line reached. -/
theorem next_of_longest (ht : Means span t.bare) (hl : Longest span rest)
    (hn : (next ⟨span ++ rest, line, none⟩).1 = some t) :
    t.line = line ∧
      next ⟨span ++ rest, line, none⟩ = (some t, ⟨rest, line + span.count '\n', none⟩) ∧
      Tokens.ofChars (span ++ rest) line =
        .cons t (Tokens.ofChars rest (line + span.count '\n')) := by
  have hend := ht.kind_ne_endOfInput
  cases hf : first? (span ++ rest) with
  | none =>
    obtain rfl : Token.endOfInput line = t := by simpa [next, hf] using hn
    exact absurd rfl hend
  | some l =>
    cases hr : l.read with
    | error p => simp [next, hf, hr] at hn
    | ok t' =>
      obtain rfl : { t' with line } = t := by simpa [next, hf, hr] using hn
      -- A lexeme that ends the text would have been answered with its end.
      have hs : l.rule ≠ .stop := by
        intro hs
        obtain rfl : t' = { kind := .endOfInput } := by simpa [Lexeme.read, hs] using hr.symm
        exact hend rfl
      obtain ⟨hspan, hrest⟩ :=
        (longest_of_first? hf).unique hl (means_of_read hf hr hs) ht (span_append_rest hf)
      have hrem : l.remainder = rest := by rw [remainder, if_neg hs, hrest]
      refine ⟨rfl, by simp [next, hf, hr, hrem, hspan], ?_⟩
      simp only [Tokens.ofChars_of_first? hf, hr, if_neg hs, hrem, hspan]

/-- Where nothing is left, or a NUL comes next, the text ends on the line reached. -/
theorem next_of_ended (h : tail = [] ∨ tail.head? = some '\x00') (line : Nat) :
    (next ⟨tail, line, none⟩).1 = some (Token.endOfInput line) ∧
      Tokens.ofChars tail line = .done line := by
  rcases h with rfl | h
  · exact ⟨by rw [next_nil], Tokens.ofChars_nil line⟩
  · obtain ⟨rest, rfl⟩ := List.head?_eq_some_iff.mp h
    have hf : first? ('\x00' :: rest) = some ⟨.stop, ['\x00'], rest⟩ := rfl
    exact ⟨rfl, by rw [Tokens.ofChars_of_first? hf]; rfl⟩

/-- Where the text is refused, the failure is on the line reached. -/
theorem next_of_refuses (h : Refuses tail p) (line : Nat) :
    next ⟨tail, line, none⟩ = (none, ⟨tail, line, some ⟨p, line⟩⟩) ∧
      Tokens.ofChars tail line = .failed ⟨p, line⟩ := by
  obtain ⟨l, hf, hr⟩ := refuses_iff.mp h
  exact ⟨by simp [next, hf, hr], by simp [Tokens.ofChars_of_first? hf, hr]⟩

/-! ## All calls -/

/-- The line that is reached after some pieces of a text that starts on the given line. -/
def lineAfter (line : Nat) (pieces : List (List Char × Token)) : Nat :=
  line + (pieces.map Prod.fst).flatten.count '\n'

theorem lineAfter_cons : lineAfter line ((span, t) :: pieces) =
    lineAfter (line + span.count '\n') pieces := by
  simp [lineAfter, Nat.add_assoc]

theorem Answers.of_cons (h : s.Answers (t :: ts) last failure) :
    s.failure = none ∧ s.next.1 = some t ∧ s.next.2.Answers ts last failure := by
  have hcalls (k : Nat) : s.calls (k + 1) = (s.next.1 :: (s.next.2.calls k).1, (s.next.2.calls k).2) :=
    rfl
  have hk (k : Nat) : s.next.1 = some t ∧
      (s.next.2.calls (ts.length + k)).1 = ts.map some ++ List.replicate k last := by
    have ha := h.answers k
    rw [List.length_cons, Nat.add_right_comm, hcalls] at ha
    exact List.cons.inj ha
  refine ⟨h.before 0 (Nat.zero_le _), (hk 0).1, fun k => (hk k).2, fun k hk => ?_, fun k hk => ?_⟩
  · exact h.before (k + 1) (by simpa using hk)
  · exact h.after (k + 1) (by simpa using hk)

theorem Partition.of_cons (h : Partition text ((span, t) :: pieces) tail) :
    ∃ rest, text = span ++ rest ∧ Means span t.bare ∧ Longest span rest ∧
      Partition rest pieces tail := by
  obtain ⟨-, ht, hl⟩ := h.lexeme [] span t pieces rfl
  refine ⟨(pieces.map Prod.fst).flatten ++ tail, by simp [h.cover], ht, hl, rfl, ?_⟩
  rintro before span' t' after rfl
  exact h.lexeme ((span, t) :: before) span' t' after rfl

/--
Each piece that the scanner answers with is on the line after the pieces in front of it, and so is
what comes after all of them. The tokens of the text are those of the pieces.
-/
theorem Partition.numbered (h : Partition text pieces tail)
    (ha : Answers ⟨text, line, none⟩ (pieces.map Prod.snd) last failure) :
    (∀ before span t after, pieces = before ++ (span, t) :: after → t.line = lineAfter line before) ∧
      Answers ⟨tail, lineAfter line pieces, none⟩ [] last failure ∧
      Tokens.ofChars text line = Tokens.ofList (pieces.map Prod.snd) ++
        Tokens.ofChars tail (lineAfter line pieces) := by
  induction pieces generalizing text line with
  | nil =>
    obtain rfl : text = tail := by simpa using h.cover
    exact ⟨by simp, ha, rfl⟩
  | cons piece pieces ih =>
    obtain ⟨span, t⟩ := piece
    obtain ⟨rest, rfl, ht, hl, hrest⟩ := h.of_cons
    obtain ⟨-, hn, ha⟩ := ha.of_cons
    obtain ⟨hline, hnext, htokens⟩ := next_of_longest ht hl hn
    -- The other pieces start where the first call stops, on the line that it has reached.
    rw [hnext] at ha
    obtain ⟨hlines, hlast, hmore⟩ := ih hrest ha
    rw [lineAfter_cons]
    refine ⟨fun before span' t' after heq => ?_, hlast, ?_⟩
    · cases before with
      | nil =>
        obtain ⟨⟨-, rfl⟩, -⟩ : (span = span' ∧ t = t') ∧ pieces = after := by simpa using heq
        exact hline
      | cons piece before =>
        obtain ⟨rfl, hpieces⟩ := List.cons.inj heq
        rw [lineAfter_cons]
        exact hlines before span' t' after hpieces
    · rw [htokens, hmore]
      rfl

theorem Answers.last_eq (h : Answers ⟨tail, line, none⟩ [] last failure)
    (ht : tail = [] ∨ tail.head? = some '\x00') : last = some (Token.endOfInput line) := by
  have hcall : [(next ⟨tail, line, none⟩).1] = [last] := h.answers 1
  rw [← List.singleton_inj.mp hcall, (next_of_ended ht line).1]

theorem Answers.failure_eq (h : Answers ⟨tail, line, none⟩ [] last failure) (hp : Refuses tail p) :
    failure = some ⟨p, line⟩ := by
  have hcall : (next ⟨tail, line, none⟩).2.failure = failure := h.after 1 Nat.one_pos
  rw [← hcall, (next_of_refuses hp line).1]

/-- How the scanner goes through a text that starts on the given line. -/
theorem exists_numbered (text : List Char) (line : Nat) :
    ∃ pieces tail, Partition text pieces tail ∧
      (∀ before span t after, pieces = before ++ (span, t) :: after →
        t.line = lineAfter line before) ∧
      ((tail = [] ∨ tail.head? = some '\x00') ∧ Answers ⟨text, line, none⟩ (pieces.map Prod.snd)
          (some (Token.endOfInput (lineAfter line pieces))) none ∨
        ∃ p, Refuses tail p ∧ Answers ⟨text, line, none⟩ (pieces.map Prod.snd) none
          (some ⟨p, lineAfter line pieces⟩)) ∧
      Tokens.ofChars text line = Tokens.ofList (pieces.map Prod.snd) ++
        Tokens.ofChars tail (lineAfter line pieces) := by
  obtain ⟨pieces, tail, hpart, ⟨ht, last, ha⟩ | ⟨p, last, hp, ha⟩⟩ := exists_partition text line
  · obtain ⟨hlines, htail, htokens⟩ := hpart.numbered ha
    rw [htail.last_eq ht] at ha
    exact ⟨pieces, tail, hpart, hlines, .inl ⟨ht, ha⟩, htokens⟩
  · obtain ⟨hlines, htail, htokens⟩ := hpart.numbered ha
    rw [htail.failure_eq hp] at ha
    exact ⟨pieces, tail, hpart, hlines, .inr ⟨p, hp, ha⟩, htokens⟩

/-- No line that is reached in a text is after its last one. -/
theorem Partition.lineAfter_le (h : Partition text (before ++ after) tail) :
    lineAfter line before ≤ line + text.count '\n' := by
  rw [lineAfter, h.cover]
  simp only [List.map_append, List.flatten_append, List.count_append]
  omega

end Scanner

/-! ## Parse errors -/

namespace Parser

open Scanner

variable {bound : Nat} {s u : State} {e : ParseError} {pieces : List (List Char × Token)}
  {tail : List Char}

/-- The tokens of pieces that the parser looks at. -/
def significant (pieces : List (List Char × Token)) : List Token :=
  (pieces.map Prod.snd).filter (·.kind ≠ .whitespace)

/-- The error is raised at the token `t`, when the parser has taken all the tokens of `pieces`. -/
structure Rejects (bound : Nat) (s : State) (pieces : List (List Char × Token)) (t : Token)
    (e : ParseError) : Prop where
  refused : ∃ u, feedAll bound s (significant pieces) = .ok u ∧ feed bound u t = .error e
  token : e.token = some t
  line : e.line = t.line

theorem rejects_of_feed {u : State} {t : Token} (hu : feedAll bound s (significant pieces) = .ok u)
    (h : feed bound u t = .error e) : Rejects bound s pieces t e := by
  obtain ⟨problem, rfl⟩ := exists_problem_of_feed h
  exact ⟨⟨u, hu, h⟩, rfl, rfl⟩

/-- The parser passes over whitespace. -/
theorem feedAll_significant_of_whitespace {t : Token} (h : t.kind = .whitespace) (bound : Nat)
    (s : State) (span : List Char) (pieces : List (List Char × Token)) :
    feedAll bound s (significant ((span, t) :: pieces)) = feedAll bound s (significant pieces) := by
  simp [significant, h]

theorem feedAll_significant_of_feed {t : Token} (h : t.kind ≠ .whitespace)
    (hf : feed bound s t = .ok u) (span : List Char) (pieces : List (List Char × Token)) :
    feedAll bound s (significant ((span, t) :: pieces)) = feedAll bound u (significant pieces) := by
  simp [significant, h, feedAll_cons_of_ok hf]

/-- An error after some pieces is an error after one more in front of them. -/
theorem Rejects.cons {piece : List Char × Token} {t : Token}
    (hs : ∀ pieces, feedAll bound s (significant (piece :: pieces)) =
      feedAll bound u (significant pieces))
    (h : Rejects bound u pieces t e) : Rejects bound s (piece :: pieces) t e where
  refused := by
    rw [hs]
    exact h.refused
  token := h.token
  line := h.line

/-- A run fails at one of the tokens, or at what follows after it has taken them all. -/
theorem exists_rejects_of_run {rest : Tokens}
    (h : run bound s (Tokens.ofList (pieces.map Prod.snd) ++ rest).significant = .error e) :
    (∃ before span t after, pieces = before ++ (span, t) :: after ∧ Rejects bound s before t e) ∨
      ∃ u, feedAll bound s (significant pieces) = .ok u ∧ run bound u rest.significant = .error e := by
  induction pieces generalizing s with
  | nil => exact .inr ⟨s, rfl, h⟩
  | cons piece pieces ih =>
    obtain ⟨span, t⟩ := piece
    rw [List.map_cons, Tokens.ofList, Tokens.cons_append, Tokens.significant] at h
    by_cases hw : t.kind = .whitespace
    · rw [if_pos hw] at h
      have hs := feedAll_significant_of_whitespace hw bound s span
      rw [hs]
      rcases ih h with ⟨before, span', t', after, rfl, hr⟩ | hend
      · exact .inl ⟨(span, t) :: before, span', t', after, rfl, hr.cons hs⟩
      · exact .inr hend
    · rw [if_neg hw, run] at h
      cases hf : feed bound s t with
      | error e' =>
        obtain rfl : e' = e := by simpa [hf] using h
        exact .inl ⟨[], span, t, pieces, rfl, rejects_of_feed rfl hf⟩
      | ok u =>
        rw [hf] at h
        have hs := feedAll_significant_of_feed hw hf span
        rw [hs]
        rcases ih h with ⟨before, span', t', after, rfl, hr⟩ | hend
        · exact .inl ⟨(span, t) :: before, span', t', after, rfl, hr.cons hs⟩
        · exact .inr hend

/--
What an error can blame, if the text is cut into `pieces` and `tail`: one of the tokens, the end of
the text, or the failure of the scanner.
-/
inductive Blames (bound : Nat) (pieces : List (List Char × Token)) (tail : List Char) :
    ParseError → Prop where
  | token {before after : List (List Char × Token)} {span : List Char} {t : Token} {e : ParseError}
      (hp : pieces = before ++ (span, t) :: after) (h : Rejects bound .initial before t e) :
      Blames bound pieces tail e
  | ended {e : ParseError} (ht : tail = [] ∨ tail.head? = some '\x00')
      (h : Rejects bound .initial pieces (Token.endOfInput (lineAfter 1 pieces)) e) :
      Blames bound pieces tail e
  | unreadable {p : ScanProblem} {u : State} (hp : Lexeme.Refuses tail p)
      (hu : feedAll bound .initial (significant pieces) = .ok u) :
      Blames bound pieces tail ⟨.unreadable ⟨p, lineAfter 1 pieces⟩, none, lineAfter 1 pieces⟩

/-- The line of an error is reached after some of the pieces. -/
theorem Blames.exists_line_eq (h : Blames bound pieces tail e)
    (hlines : ∀ before span t after, pieces = before ++ (span, t) :: after →
      t.line = lineAfter 1 before) :
    ∃ before after, pieces = before ++ after ∧ e.line = lineAfter 1 before := by
  cases h with
  | token hp h => exact ⟨_, _, hp, h.line.trans (hlines _ _ _ _ hp)⟩
  | ended ht h => exact ⟨pieces, [], by simp, h.line⟩
  | unreadable => exact ⟨pieces, [], by simp, rfl⟩

/-- An error after all the tokens is at the end of the text, or is the failure of the scanner. -/
theorem blames_of_run
    (hend : (tail = [] ∨ tail.head? = some '\x00') ∨ ∃ p, Lexeme.Refuses tail p)
    (hu : feedAll bound .initial (significant pieces) = .ok u)
    (h : run bound u (Tokens.ofChars tail (lineAfter 1 pieces)).significant = .error e) :
    Blames bound pieces tail e := by
  rcases hend with ht | ⟨p, hp⟩
  · rw [(next_of_ended ht _).2, Tokens.significant, run] at h
    split at h
    · rename_i e' hf
      cases h
      exact .ended ht (rejects_of_feed hu hf)
    · cases h
  · rw [(next_of_refuses hp _).2] at h
    cases h
    exact .unreadable hp hu

end Parser

namespace Scanner

open Lexeme

/--
The scanner cuts a text into pieces, and answers each with the line of its first character, which is
one more than the newlines in front of it. The end of the text and a failure are on the line after
all the pieces. An error of the parser blames one of these, and has its line; so there is such a
line in the text.
-/
theorem lines_ofText (text : String) :
    ∃ pieces tail, Partition text.toList pieces tail ∧
      (∀ before span t after, pieces = before ++ (span, t) :: after → t.line = lineAfter 1 before) ∧
      ((tail = [] ∨ tail.head? = some '\x00') ∧ (ofText text).Answers (pieces.map Prod.snd)
          (some (Token.endOfInput (lineAfter 1 pieces))) none ∨
        ∃ p, Refuses tail p ∧ (ofText text).Answers (pieces.map Prod.snd) none
          (some ⟨p, lineAfter 1 pieces⟩)) ∧
      ∀ bound e, Parser.parse bound text = .error e → Parser.Blames bound pieces tail e ∧
        1 ≤ e.line ∧ e.line ≤ 1 + text.toList.count '\n' := by
  obtain ⟨pieces, tail, hpart, hlines, hend, htokens⟩ := exists_numbered text.toList 1
  refine ⟨pieces, tail, hpart, hlines, hend, fun bound e he => ?_⟩
  rw [Parser.parse, Tokens.ofText, htokens] at he
  have hblames : Parser.Blames bound pieces tail e := by
    rcases Parser.exists_rejects_of_run he with ⟨before, span, t, after, hp, h⟩ | ⟨u, hu, h⟩
    · exact .token hp h
    · exact Parser.blames_of_run (hend.imp And.left fun ⟨p, hp, _⟩ => ⟨p, hp⟩) hu h
  obtain ⟨before, after, rfl, hline⟩ := hblames.exists_line_eq hlines
  rw [hline]
  exact ⟨hblames, Nat.le_add_right 1 _, hpart.lineAfter_le⟩

/-- A quoted text goes over two lines, and the error is on the third one. -/
theorem lines_ofText_quoted :
    let text := "x = \"a\nb\"\n)"
    let e : ParseError := .atToken { kind := .rightParen, line := 3 } .badStart
    Parser.parse 0 text = .error e ∧
      (∃ pieces tail, Partition text.toList pieces tail ∧ Parser.Blames 0 pieces tail e) ∧
      1 ≤ e.line ∧ e.line ≤ 1 + text.toList.count '\n' := by
  intro text e
  have he : Parser.parse 0 text = .error e := by cbv
  obtain ⟨pieces, tail, hpart, -, -, herrors⟩ := lines_ofText text
  obtain ⟨hblames, hpos, hle⟩ := herrors 0 e he
  exact ⟨he, ⟨pieces, tail, hpart, hblames⟩, hpos, hle⟩

end Scanner

end Scriptlet
