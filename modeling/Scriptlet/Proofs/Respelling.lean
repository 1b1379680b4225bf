import Scriptlet.Proofs.Partition
import Scriptlet.Proofs.RoundTrip

/-!
# Scanning undoes spelling

A list of tokens that is written out with a blank between each two is scanned as the same list. Every
token ends where its spelling ends: a blank goes on with no numeral, word or symbol, and a quoted text
ends at its own quote, whatever stands inside of it.

## Main definitions

* `Token.spelling`: a token as it stands in a program text
* `Token.Spellable`: the tokens that have a spelling

## Main statements

* `Token.Spellable.spells`: a spelling is scanned as its token, if a blank follows
* `Token.spells_intercalate`: so are many spellings, with a blank between each two
* `Scanner.answers_spellings`: what the scanner answers on such a text
-/

namespace Scriptlet

namespace Token

/-- A token as it stands in a program text. A quoted text stands as it is, without escapes. -/
def spelling (t : Token) : String :=
  if t.kind = .literal ∧ t.keyword = .none then "\"" ++ t.text ++ "\"" else t.describe

/-- The tokens that have a spelling, on any line. -/
inductive Spellable : Token → Prop where
  | symbol {k : Kind} {line : Nat} (hk : k ∈ Lexeme.symbols) : Spellable { kind := k, line }
  | number {value : Float} {line : Nat} (hv : Number.IsUnsigned value) :
      Spellable { kind := .number, number := value, line }
  | identifier {name : String} {line : Nat} (hw : Text.IsWord name)
      (hk : Keyword.ofWord? name = none) : Spellable { kind := .identifier, text := name, line }
  | keyword {word : String} {k : Keyword} {line : Nat} (hk : Keyword.ofWord? word = some k) :
      Spellable { kind := .literal, text := word, keyword := k, line }
  | quoted {text : String} {line : Nat} (hq : '"' ∉ text.toList) :
      Spellable { kind := .literal, text, line }

variable {t u : Token} {ts : List Token}

theorem spells_symbol {k : Kind} (hk : k ∈ Lexeme.symbols) :
    Text.Spells k.name.toList [{ kind := k }] false := by
  simp only [Lexeme.symbols, List.mem_cons, List.not_mem_nil, or_false] at hk
  rcases hk with rfl | rfl | rfl | rfl | rfl | rfl | rfl | rfl | rfl | rfl | rfl
  · exact Text.spells_operator rfl
  · exact Text.spells_operator rfl
  · exact Text.spells_operator rfl
  · exact Text.spells_operator rfl
  · exact Text.spells_operator rfl
  · exact Text.spells_assign
  · exact Text.spells_equals
  · exact Text.Spells.nil.leftParen
  · exact Text.Spells.nil.rightParen
  · exact Text.spells_leftBrace
  · exact Text.spells_rightBrace

theorem spelling_symbol {k : Kind} {line : Nat} (hk : k ∈ Lexeme.symbols) :
    ({ kind := k, line } : Token).spelling = k.name := by
  simp only [Lexeme.symbols, List.mem_cons, List.not_mem_nil, or_false] at hk
  rcases hk with rfl | rfl | rfl | rfl | rfl | rfl | rfl | rfl | rfl | rfl | rfl <;> rfl

theorem spelling_keyword {word : String} {k : Keyword} {line : Nat}
    (hk : Keyword.ofWord? word = some k) :
    ({ kind := .literal, text := word, keyword := k, line } : Token).spelling = word := by
  have hn : k ≠ .none := by
    have hm := Keyword.mem_spellings hk
    rintro rfl
    simp [Keyword.spellings] at hm
  simp [spelling, describe, hn]

/-- A spelling is scanned as its token, if a blank follows or nothing does. -/
theorem Spellable.spells (h : t.Spellable) : Text.Spells t.spelling.toList [t.bare] true := by
  cases h with
  | symbol hk =>
    rw [spelling_symbol hk]
    exact (spells_symbol hk).weaken
  | number hv => exact (Node.written_number hv).spells.weaken
  | identifier hw hk => exact Text.spells_identifier hw hk
  | keyword hk =>
    rw [spelling_keyword hk]
    exact Text.spells_keyword hk
  | @quoted text line hq =>
    have hs := Text.spells_quoted hq
    rw [Token.quoted, String.ofList_toList] at hs
    simpa [spelling, bare] using hs.weaken

/-- Spellings with a blank between each two are scanned as their tokens. -/
theorem spells_intercalate (h : ∀ t ∈ ts, t.Spellable) :
    Text.Spells (" ".intercalate (ts.map spelling)).toList (ts.map bare) true := by
  induction ts with
  | nil => exact Text.Spells.nil
  | cons t ts ih =>
    have ht := (h t List.mem_cons_self).spells
    cases ts with
    | nil => simpa using ht
    | cons u ts =>
      have hs := ht.space (ih fun v hv => h v (List.mem_cons_of_mem _ hv))
      simpa [String.intercalate_cons_cons] using hs

/-- Finite numbers are equal to themselves, so a token is the same as itself on another line. -/
theorem Spellable.sameAs (h : t.Spellable) (hu : t.bare = u.bare) : t.sameAs u := by
  have hzero : (0 : Float) == 0 := by decide +kernel
  have hn : t.number == t.number := by
    cases h with
    | number hv => exact Number.beq_self hv.finite
    | symbol | identifier | keyword | quoted => exact hzero
  simp only [bare, Token.mk.injEq] at hu
  obtain ⟨hk, hnum, ht, hw, -⟩ := hu
  simp [Token.sameAs, ← hk, ← hnum, ← ht, ← hw, hn]

end Token

namespace Scanner

/--
The scanner answers on the spellings of a list of tokens, with a blank between each two, with tokens
that are the same as those of the list, apart from the whitespace between them. After them come ends
of the text, as many as are asked for, and never a failure.
-/
theorem answers_spellings (ts : List Token) (h : ∀ t ∈ ts, t.Spellable) :
    ∃ us line, (ofText (" ".intercalate (ts.map Token.spelling))).Answers us
        (some (Token.endOfInput line)) none ∧
      List.Forall₂ (fun t u => t.sameAs u) ts (us.filter (·.kind ≠ .whitespace)) := by
  set text := " ".intercalate (ts.map Token.spelling)
  have hplain : Tokens.plain text.toList = Tokens.ofList (ts.map Token.bare) :=
    (Token.spells_intercalate h).plain_eq
  have hfail : (Tokens.ofChars text.toList 1).failure? = none := by
    have hf := congrArg Tokens.failure? hplain
    rw [Tokens.failure?_ofList, Tokens.plain, Tokens.failure?_significant_bare] at hf
    simpa using hf
  obtain ⟨last, ha⟩ := exists_answers_ofChars text.toList 1 hfail
  have hlist := congrArg Tokens.toList hplain
  rw [Tokens.toList_plain, Tokens.toList_ofList, eq_comm, ← List.forall₂_eq_eq_eq,
    List.forall₂_map_left_iff, List.forall₂_map_right_iff] at hlist
  refine ⟨_, last, ha, ((List.forall₂_and_left _ _).mpr ⟨h, hlist⟩).imp ?_⟩
  rintro t u ⟨ht, hu⟩
  exact ht.sameAs hu

/-- The tokens of `naïve) 0.1 == "two lines = 2" while`, with a line break inside of the quotes. -/
theorem answers_spellings_word :
    (∀ t ∈ ([{ kind := .identifier, text := "naïve)", line := 4 },
        { kind := .number, number := 0.1 }, { kind := .equals },
        { kind := .literal, text := "two\nlines = 2" },
        { kind := .literal, text := "while", keyword := .whileWord }] : List Token), t.Spellable) ∧
      ∃ us line, (ofText (" ".intercalate (([{ kind := .identifier, text := "naïve)", line := 4 },
          { kind := .number, number := 0.1 }, { kind := .equals },
          { kind := .literal, text := "two\nlines = 2" },
          { kind := .literal, text := "while", keyword := .whileWord }] : List Token).map
            Token.spelling))).Answers us (some (Token.endOfInput line)) none ∧
        List.Forall₂ (fun t u => Token.sameAs t u)
          [{ kind := .identifier, text := "naïve)", line := 4 }, { kind := .number, number := 0.1 },
            { kind := .equals }, { kind := .literal, text := "two\nlines = 2" },
            { kind := .literal, text := "while", keyword := .whileWord }]
          (us.filter (·.kind ≠ .whitespace)) := by
  have hword : Text.IsWord "naïve)" := ⟨'n', ['a', 'ï', 'v', 'e', ')'], rfl, rfl, by simp [Text.isBlank]⟩
  have hnumber : Number.IsUnsigned 0.1 := ⟨by decide +kernel, by decide +kernel⟩
  have h : ∀ t ∈ ([{ kind := .identifier, text := "naïve)", line := 4 },
      { kind := .number, number := 0.1 }, { kind := .equals },
      { kind := .literal, text := "two\nlines = 2" },
      { kind := .literal, text := "while", keyword := .whileWord }] : List Token), t.Spellable := by
    simp only [List.mem_cons, List.not_mem_nil, or_false]
    rintro t (rfl | rfl | rfl | rfl | rfl)
    · exact .identifier hword rfl
    · exact .number hnumber
    · exact .symbol (by decide)
    · exact .quoted (by decide)
    · exact .keyword rfl
  exact ⟨h, answers_spellings _ h⟩

end Scanner

end Scriptlet
