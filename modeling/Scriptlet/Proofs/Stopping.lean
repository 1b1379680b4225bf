import Scriptlet.Token.Lexer
import Scriptlet.Proofs.Lines

/-!
# Calls that stop

A lexer stops with its flag and its error at once, and nothing sets one of them alone. So it answers
as the scanner does, which has one register for both, and whoever is refused a token finds the error.
Each token takes something from the text, except for the end of the text, which takes nothing and can
be asked for again.

## Main definitions

* `Lexer.Call`: what one call does
* `Lexer.Sound`: the flag is set if and only if there is an error
* `Lexer.tokens`: what the next calls will answer

## Main statements

* `Lexer.length_le_of_next`: a token is taken from the text
* `Lexer.next_eq_self_of_endOfInput`: the end of the text is answered again and again
* `Lexer.Sound.exists_error`: a call that fails leaves an error
* `Lexer.Sound.answer`: a call answers the first of the tokens and leaves the others
* `Scanner.next_lexer`: the lexer answers as the scanner does
-/

namespace Scriptlet

/-- The lexeme that ends a text is the one whose token does. -/
theorem Lexeme.kind_of_read {l : Lexeme} {cs : List Char} {t : Token} (hf : first? cs = some l)
    (hr : l.read = .ok t) :
    l.rule = .stop ∧ t = { kind := .endOfInput } ∨ l.rule ≠ .stop ∧ t.kind ≠ .endOfInput := by
  by_cases hs : l.rule = .stop
  · exact .inl ⟨hs, by simpa [read, hs] using hr.symm⟩
  · exact .inr ⟨hs, (means_of_read hf hr hs).kind_ne_endOfInput⟩

theorem Tokens.ofChars_of_first?_eq_none {cs : List Char} (h : Lexeme.first? cs = none) (line : Nat) :
    ofChars cs line = .done line := by
  obtain rfl : cs = [] := by
    cases cs with
    | nil => rfl
    | cons => cases h
  exact ofChars_nil line

namespace Lexer

variable {s s' : Lexer} {t : Token} {reply : Option Token}

/-! ## One call -/

/-- What one call does: its answer, and the lexer after it. -/
inductive Call (s : Lexer) : Option Token → Lexer → Prop where
  | stopped (hd : s.done = true) : Call s none s
  | ended (hd : s.done = false) (hf : Lexeme.first? s.rest = none) :
      Call s (some (.endOfInput s.line)) s
  | refused {l p} (hd : s.done = false) (hf : Lexeme.first? s.rest = some l)
      (hr : l.read = .error p) :
      Call s none { s with done := true, error := some ⟨p, s.line⟩ }
  | read {l t} (hd : s.done = false) (hf : Lexeme.first? s.rest = some l) (hr : l.read = .ok t) :
      Call s (some { t with line := s.line })
        { s with rest := l.remainder, line := s.line + l.span.count '\n' }

theorem call_of_next (h : s.next = (reply, s')) : Call s reply s' := by
  cases hd : s.done with
  | true =>
    obtain ⟨rfl, rfl⟩ : none = reply ∧ s = s' := by simpa [next, hd] using h
    exact .stopped hd
  | false =>
    cases hf : Lexeme.first? s.rest with
    | none =>
      obtain ⟨rfl, rfl⟩ : some (.endOfInput s.line) = reply ∧ s = s' := by
        simpa [next, hd, hf] using h
      exact .ended hd hf
    | some l =>
      cases hr : l.read with
      | error p =>
        simp only [next, hd, hf, hr, Bool.false_eq_true, if_false, fail, Prod.mk.injEq] at h
        obtain ⟨rfl, rfl⟩ := h
        exact .refused hd hf hr
      | ok t =>
        simp only [next, hd, hf, hr, Bool.false_eq_true, if_false, Prod.mk.injEq] at h
        obtain ⟨rfl, rfl⟩ := h
        rw [← hd]
        exact .read hd hf hr

/-- A token is taken from the text, unless it is the end of the text. -/
theorem length_le_of_next (h : s.next = (some t, s')) :
    s'.rest.length + (if t.kind = .endOfInput then 0 else 1) ≤ s.rest.length := by
  cases call_of_next h with
  | ended => exact le_rfl
  | read _ hf _ =>
    have hlt := Lexeme.length_remainder_lt hf
    dsimp only
    split <;> omega

/-- The end of the text takes nothing, so it is answered again and again. -/
theorem next_eq_self_of_endOfInput (h : s.next = (some t, s')) (hk : t.kind = .endOfInput) :
    s'.next = (some (.endOfInput s'.line), s') := by
  have next_nil (line : Nat) (error : Option ScanError) :
      next ⟨[], line, false, error⟩ = (some (.endOfInput line), ⟨[], line, false, error⟩) := rfl
  obtain ⟨rest, line, done, error⟩ := s
  cases call_of_next h with
  | ended hd hf =>
    obtain ⟨rfl, rfl⟩ : rest = [] ∧ done = false := by
      refine ⟨?_, hd⟩
      cases rest with
      | nil => rfl
      | cons => cases hf
    exact next_nil line error
  | read hd hf hr =>
    obtain rfl : done = false := hd
    rcases Lexeme.kind_of_read hf hr with ⟨hs, -⟩ | ⟨-, hne⟩
    · simpa only [Lexeme.remainder, hs, if_true] using next_nil _ error
    · exact absurd hk hne

/-! ## Flag and error -/

/-- The flag is set if and only if there is an error. -/
def Sound (s : Lexer) : Prop := s.done = s.error.isSome

theorem sound_ofText (text : String) : (ofText text).Sound := rfl

theorem Sound.of_next (h : s.Sound) (hn : s.next = (reply, s')) : s'.Sound := by
  cases call_of_next hn with
  | stopped | ended | read => exact h
  | refused => rfl

theorem Sound.after (h : s.Sound) (n : Nat) : (s.after n).Sound := by
  induction n generalizing s with
  | zero => exact h
  | succ n ih => exact ih (h.of_next rfl)

/-- A call that fails leaves an error. -/
theorem Sound.exists_error (h : s.Sound) (hn : s.next = (none, s')) : ∃ e, s'.error = some e := by
  cases call_of_next hn with
  | stopped hd => exact Option.isSome_iff_exists.mp (h ▸ hd)
  | refused => exact ⟨_, rfl⟩

/-! ## The tokens that are to come -/

/-- The tokens that the next calls will answer, and how the text ends. -/
def tokens (s : Lexer) : Tokens :=
  match s.error with
  | some e => .failed e
  | none => .ofChars s.rest s.line

theorem tokens_ofText (text : String) : (ofText text).tokens = .ofText text := rfl

/-- What the answer to a call says about the tokens. -/
inductive Answer (s : Lexer) : Option Token → Lexer → Prop where
  | token {t : Token} {s' : Lexer} (hk : t.kind ≠ .endOfInput)
      (ht : s.tokens = .cons t s'.tokens) : Answer s (some t) s'
  | ended {line : Nat} {s' : Lexer} (ht : s.tokens = .done line) :
      Answer s (some (.endOfInput line)) s'
  | failed {e : ScanError} {s' : Lexer} (he : s'.error = some e) (ht : s.tokens = .failed e) :
      Answer s none s'

/-- A call answers the first of the tokens and leaves the others. -/
theorem Sound.answer (h : s.Sound) (hn : s.next = (reply, s')) : Answer s reply s' := by
  have tokens_eq (hd : s.done = false) : s.tokens = .ofChars s.rest s.line ∧ s.error = none := by
    have he : s.error = none := by simpa [Sound, hd] using h
    exact ⟨by rw [tokens, he], he⟩
  cases call_of_next hn with
  | stopped hd =>
    obtain ⟨e, he⟩ := Option.isSome_iff_exists.mp (h ▸ hd)
    exact .failed he (by rw [tokens, he])
  | ended hd hf => exact .ended (by rw [(tokens_eq hd).1, Tokens.ofChars_of_first?_eq_none hf])
  | refused hd hf hr => exact .failed rfl (by simp [tokens_eq hd, Tokens.ofChars_of_first? hf, hr])
  | @read l t hd hf hr =>
    obtain ⟨htokens, he⟩ := tokens_eq hd
    rw [Tokens.ofChars_of_first? hf, hr] at htokens
    rcases Lexeme.kind_of_read hf hr with ⟨hs, rfl⟩ | ⟨hs, hk⟩
    · exact .ended (by simpa [hs] using htokens)
    · exact .token hk (by simpa [hs, tokens, he] using htokens)

end Lexer

/-- With a failure in both registers, a lexer answers as the scanner does. -/
theorem Scanner.next_lexer (s : Scanner) : s.lexer.next = (s.next.1, s.next.2.lexer) := by
  obtain ⟨rest, line, failure⟩ := s
  cases failure with
  | some e => rfl
  | none =>
    unfold Lexer.next next
    dsimp only [lexer]
    cases Lexeme.first? rest with
    | none => rfl
    | some l => cases hr : l.read <;> simp [hr, Lexer.fail]

end Scriptlet
