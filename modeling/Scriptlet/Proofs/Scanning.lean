import Scriptlet.Proofs.Layout

/-!
# Scanning a text in pieces

A blank ends every lexeme except a quoted text that is still open. So a text whose last quote is
closed can be scanned on its own, whatever follows after a blank, and a text whose last quote is
open swallows what follows up to the next quote.

## Main definitions

* `Text.Separated`: a text that starts with a blank, or is empty
* `Lexeme.EndsOpen`: a text that ends inside of quotes

## Main statements

* `Tokens.plain_append`: the tokens of two separated texts, the first with its quotes closed
* `Lexeme.EndsOpen.plain_append`: the tokens of a text that goes on inside of quotes
-/

namespace Scriptlet

/-- A text that the lexeme in front of it cannot run into. -/
def Text.Separated (cs : List Char) : Prop := ∀ c ∈ cs.head?, Text.isBlank c

namespace Text

theorem separated_nil : Separated [] := by simp [Separated]

theorem separated_cons {c : Char} {cs : List Char} (h : isBlank c) : Separated (c :: cs) := by
  simpa [Separated] using h

theorem Separated.append {cs ds : List Char} (h : Separated cs) (h' : Separated ds) :
    Separated (cs ++ ds) := by
  cases cs with
  | nil => exact h'
  | cons c cs => exact h

theorem not_isDigit_of_isBlank {c : Char} (h : isBlank c) : c.isDigit = false := by
  rw [Bool.eq_false_iff]
  intro hd
  simp only [Char.isDigit, Bool.and_eq_true, decide_eq_true_eq, UInt32.le_iff_toNat_le] at hd
  simp only [isBlank, Char.toNat, Bool.or_eq_true, Bool.and_eq_true, decide_eq_true_eq, beq_iff_eq]
    at h
  have h0 : '0'.val.toNat = 48 := rfl
  have h9 : '9'.val.toNat = 57 := rfl
  omega

/-- A separated text starts with none of the characters that go on with a lexeme. -/
theorem Separated.head?_ne {cs : List Char} (h : Separated cs) {c : Char} (hc : isBlank c = false) :
    cs.head? ≠ some c := by
  intro he
  have := h c he
  simp [hc] at this

end Text

theorem Text.takeWhile_append_of_head {α : Type} {p : α → Bool} (as bs : List α)
    (h : ∀ b ∈ bs.head?, p b = false) :
    (as ++ bs).takeWhile p = as.takeWhile p ∧ (as ++ bs).dropWhile p = as.dropWhile p ++ bs := by
  induction as with
  | nil => cases bs <;> simp_all
  | cons a as ih => cases hp : p a <;> simp [hp, ih]

namespace Lexeme

theorem splitNumber_append_of_head (seen : Bool) (cs ds : List Char)
    (h : ∀ d ∈ ds.head?, d.isDigit = false ∧ d ≠ '.') :
    splitNumber seen (cs ++ ds) = ((splitNumber seen cs).1, (splitNumber seen cs).2 ++ ds) := by
  induction cs generalizing seen with
  | nil =>
    cases ds with
    | nil => rfl
    | cons d ds =>
      obtain ⟨hd, hp⟩ := h d rfl
      simp [splitNumber, hd, hp]
  | cons c cs ih =>
    simp only [List.cons_append, splitNumber, ih]
    split
    · rfl
    · split <;> rfl

theorem splitQuoted_append_of_mem {cs : List Char} (h : '"' ∈ cs) (ds : List Char) :
    splitQuoted (cs ++ ds) = ((splitQuoted cs).1, (splitQuoted cs).2 ++ ds) := by
  induction cs with
  | nil => cases h
  | cons c cs ih =>
    by_cases hc : c = '"'
    · simp [splitQuoted, hc]
    · have hm : '"' ∈ cs := by simpa [Ne.symm hc] using h
      simp [splitQuoted, hc, ih hm]

theorem splitQuoted_append_of_not_mem {cs : List Char} (h : '"' ∉ cs) (ds : List Char) :
    splitQuoted (cs ++ ds) = (cs ++ (splitQuoted ds).1, (splitQuoted ds).2) := by
  induction cs with
  | nil => simp
  | cons c cs ih =>
    have hc : c ≠ '"' := fun he => h (by simp [he])
    have hm : '"' ∉ cs := fun hm => h (List.mem_cons_of_mem _ hm)
    simp [splitQuoted, hc, ih hm]

theorem mem_splitQuoted_iff (cs : List Char) : '"' ∈ (splitQuoted cs).1 ↔ '"' ∈ cs := by
  induction cs with
  | nil => simp [splitQuoted]
  | cons c cs ih => by_cases hc : c = '"' <;> simp [splitQuoted, hc, ih]

theorem takeWhile_splitQuoted (cs : List Char) :
    (splitQuoted cs).1.takeWhile (· != '"') = cs.takeWhile (· != '"') := by
  induction cs with
  | nil => rfl
  | cons c cs ih => by_cases hc : c = '"' <;> simp [splitQuoted, hc, ih]

/-- The lexical rules by the character that a lexeme starts with. -/
inductive Starts : List Char → Lexeme → Prop where
  | number {c cs} (hd : c.isDigit) :
      Starts (c :: cs) ⟨.number, c :: (splitNumber false cs).1, (splitNumber false cs).2⟩
  | word {c cs} (hd : c.isDigit = false) (hl : c.isLower) :
      Starts (c :: cs) ⟨.word, c :: cs.takeWhile (!Text.isBlank ·), cs.dropWhile (!Text.isBlank ·)⟩
  | quoted {cs} :
      Starts ('"' :: cs) ⟨.quoted, '"' :: (splitQuoted cs).1, (splitQuoted cs).2⟩
  | equals {cs} : Starts ('=' :: '=' :: cs) ⟨.symbol .equals, ['=', '='], cs⟩
  | single {c cs} (hd : c.isDigit = false) (hl : c.isLower = false) (hq : c ≠ '"')
      (he : c = '=' → cs.head? ≠ some '=') : Starts (c :: cs) ⟨singleRule c, [c], cs⟩

theorem first?_eq_some_iff {cs : List Char} {l : Lexeme} : first? cs = some l ↔ Starts cs l := by
  constructor
  · intro h
    cases cs with
    | nil => cases h
    | cons c cs =>
      simp only [first?, Option.some.injEq] at h
      subst h
      split
      · rename_i hd; exact .number hd
      · rename_i hd
        split
        · rename_i hl; exact .word (by simpa using hd) hl
        · rename_i hl
          split
          · rename_i hq; subst hq; exact .quoted
          · rename_i hq
            split
            · rename_i he
              obtain ⟨rfl, he⟩ := he
              obtain ⟨ds, rfl⟩ := List.head?_eq_some_iff.mp he
              exact .equals
            · rename_i he
              exact .single (by simpa using hd) (by simpa using hl) hq fun hc hn => he ⟨hc, hn⟩
  · intro h
    cases h with
    | number hd => simp [first?, hd]
    | word hd hl => simp [first?, hd, hl]
    | quoted => simp [first?]
    | equals => simp [first?]
    | single hd hl hq he =>
      simp only [first?, hd, hl, hq, Bool.false_eq_true, if_false, Option.some.injEq]
      rw [if_neg fun h => he h.1 h.2]

theorem singleRule_ne_quoted (c : Char) : singleRule c ≠ .quoted := by
  unfold singleRule
  split <;> simp

theorem singleRule_eq_stop {c : Char} (h : singleRule c = .stop) : c = '\x00' := by
  unfold singleRule at h
  split at h <;> simp_all

/-- A quoted text without its closing quote. -/
def Open (l : Lexeme) : Prop := l.rule = .quoted ∧ '"' ∉ l.span.drop 1

/-- An open quoted text is all that is left. -/
theorem Open.eq_cons {cs : List Char} {l : Lexeme} (h : first? cs = some l) (ho : l.Open) :
    ∃ body, cs = '"' :: body ∧ '"' ∉ body ∧ l = ⟨.quoted, cs, []⟩ := by
  obtain ⟨hr, hm⟩ := ho
  cases first?_eq_some_iff.mp h with
  | number | word | equals => cases hr
  | single => exact absurd hr (singleRule_ne_quoted _)
  | @quoted cs =>
    have hm' : '"' ∉ cs := by simpa [mem_splitQuoted_iff] using hm
    have hs := splitQuoted_append_of_not_mem hm' []
    rw [List.append_nil] at hs
    exact ⟨cs, rfl, hm', by simp [hs, splitQuoted]⟩

/-- What follows after a blank does not change a lexeme, unless that is an open quoted text. -/
theorem first?_append {cs : List Char} {l : Lexeme} (h : first? cs = some l) (ho : ¬ l.Open)
    {ds : List Char} (hd : Text.Separated ds) :
    first? (cs ++ ds) = some { l with rest := l.rest ++ ds } := by
  rw [first?_eq_some_iff]
  cases first?_eq_some_iff.mp h with
  | @number c cs hc =>
    have hs := splitNumber_append_of_head false cs ds fun d h =>
      ⟨Text.not_isDigit_of_isBlank (hd d h), fun he => absurd (hd d h) (by simp [he, Text.isBlank])⟩
    simpa [hs] using (Starts.number hc : Starts (c :: (cs ++ ds)) _)
  | @word c cs hc hl =>
    obtain ⟨ht, hr⟩ := Text.takeWhile_append_of_head (p := (!Text.isBlank ·)) cs ds
      fun d h => by simp [hd d h]
    simpa [ht, hr] using (Starts.word hc hl : Starts (c :: (cs ++ ds)) _)
  | @quoted cs =>
    have hm : '"' ∈ cs := by
      refine Decidable.not_not.mp fun hm => ho ⟨rfl, ?_⟩
      simpa [mem_splitQuoted_iff] using hm
    simpa [splitQuoted_append_of_mem hm] using (Starts.quoted : Starts ('"' :: (cs ++ ds)) _)
  | equals => exact .equals
  | @single c cs hc hl hq he =>
    refine .single hc hl hq fun heq => ?_
    cases cs with
    | nil => exact hd.head?_ne rfl
    | cons d cs => exact he heq

/-- What a lexeme reads as depends on what follows only if a parenthesis does. -/
theorem read_append (l : Lexeme) {ds : List Char} (hd : Text.Separated ds) :
    ({ l with rest := l.rest ++ ds } : Lexeme).read = l.read := by
  have hp : (l.rest ++ ds).head? = some '(' ↔ l.rest.head? = some '(' := by
    cases hr : l.rest with
    | nil => simp [hd.head?_ne (c := '(') rfl]
    | cons c cs => simp
  simp only [read, hp]

theorem rule_ne_stop {cs : List Char} {l : Lexeme} (h : first? cs = some l) (hn : '\x00' ∉ cs) :
    l.rule ≠ .stop := by
  cases first?_eq_some_iff.mp h with
  | number | word | quoted | equals => simp
  | single => exact fun hr => hn (by simp [singleRule_eq_stop hr])

theorem not_mem_rest {cs : List Char} {l : Lexeme} (h : first? cs = some l) {c : Char}
    (hn : c ∉ cs) : c ∉ l.rest := by
  rw [← span_append_rest h] at hn
  exact fun hm => hn (List.mem_append_right _ hm)

/-- The kinds of token that have a payload, or that stand for no operator or bracket. -/
def wordKinds : List Token.Kind := [.endOfInput, .whitespace, .number, .identifier, .literal]

theorem singleRule_cases (c : Char) :
    singleRule c ∈ [.blank, .stop, .unknown] ∨ ∃ k ∉ wordKinds, singleRule c = .symbol k := by
  unfold singleRule
  split <;> simp [wordKinds]

/-- A text whose last lexeme is an open quoted text, and all of which can be scanned. -/
inductive EndsOpen : List Char → Prop where
  | here {cs : List Char} {l : Lexeme} (h : first? cs = some l) (ho : l.Open) : EndsOpen cs
  | later {cs : List Char} {l : Lexeme} {t : Token} (h : first? cs = some l) (hr : l.read = .ok t)
      (ho : EndsOpen l.rest) : EndsOpen cs

end Lexeme

/-- A small letter, and after it no blank. -/
def Text.IsWord (word : String) : Prop :=
  ∃ c cs, word = String.ofList (c :: cs) ∧ c.isLower ∧ ∀ d ∈ cs, isBlank d = false

theorem Text.isBlank_eq_false_of_isLower {c : Char} (h : c.isLower) : isBlank c = false := by
  simp only [Char.isLower, Bool.and_eq_true, decide_eq_true_eq, UInt32.le_iff_toNat_le] at h
  have ha : 'a'.val.toNat = 97 := rfl
  have hz : 'z'.val.toNat = 122 := rfl
  have hc : c.val.toNat = c.toNat := rfl
  simp only [isBlank, Bool.or_eq_false_iff, Bool.and_eq_false_iff, decide_eq_false_iff_not,
    beq_eq_false_iff_ne]
  omega

theorem Keyword.mem_spellings {word : String} {k : Keyword} (h : ofWord? word = some k) :
    (word, k) ∈ spellings := by
  obtain ⟨before, after, hs, -⟩ := List.lookup_eq_some_iff.mp h
  simp [hs]

/-- The reserved words are words. -/
theorem Keyword.isWord_of_ofWord? {word : String} {k : Keyword} (h : ofWord? word = some k) :
    Text.IsWord word := by
  have hm := mem_spellings h
  have hall : ∀ s ∈ spellings, ∃ c cs, s.1 = String.ofList (c :: cs) ∧
      (c :: cs).all Char.isLower := by
    intro s hs
    simp only [spellings, List.mem_cons, List.not_mem_nil, or_false] at hs
    rcases hs with rfl | rfl | rfl | rfl | rfl | rfl | rfl | rfl <;> exact ⟨_, _, rfl, rfl⟩
  obtain ⟨c, cs, hw, hl⟩ := hall _ hm
  rw [List.all_eq_true] at hl
  exact ⟨c, cs, hw, hl c List.mem_cons_self,
    fun d hd => Text.isBlank_eq_false_of_isLower (hl d (List.mem_cons_of_mem _ hd))⟩

namespace Token

/-- The token of a quoted text. -/
def quoted (body : List Char) : Token := { kind := .literal, text := String.ofList body }

/-- The tokens that the lexical rules make: each has the payload of its kind and no other. -/
inductive Scanned : Token → Prop where
  | number (value : Float) : Scanned { kind := .number, number := value }
  | identifier {name : String} (hw : Text.IsWord name) (hk : Keyword.ofWord? name = none) :
      Scanned { kind := .identifier, text := name }
  | keyword {word : String} {k : Keyword} (h : Keyword.ofWord? word = some k) :
      Scanned { kind := .literal, text := word, keyword := k }
  | quoted (body : List Char) : Scanned (.quoted body)
  | symbol {k : Kind} (hk : k ∉ Lexeme.wordKinds) :
      Scanned { kind := k }

theorem Scanned.kind_ne_endOfInput {t : Token} (h : Scanned t) : t.kind ≠ .endOfInput := by
  cases h with
  | number | identifier | keyword | quoted => simp [Token.quoted]
  | symbol hk => exact fun he => hk (by simp [← he, Lexeme.wordKinds])

theorem Scanned.eq_number {t : Token} (h : Scanned t) (hk : t.kind = .number) :
    t = { kind := .number, number := t.number } := by
  cases h with
  | number => rfl
  | identifier | keyword | quoted => cases hk
  | symbol hs => exact absurd hk fun he => hs (by simp [← he, Lexeme.wordKinds])

theorem Scanned.eq_identifier {t : Token} (h : Scanned t) (hk : t.kind = .identifier) :
    t = { kind := .identifier, text := t.text } := by
  cases h with
  | identifier => rfl
  | number | keyword | quoted => cases hk
  | symbol hs => exact absurd hk fun he => hs (by simp [← he, Lexeme.wordKinds])

theorem Scanned.eq_literal {t : Token} (h : Scanned t) (hk : t.kind = .literal) :
    t = { kind := .literal, text := t.text, keyword := t.keyword } := by
  cases h with
  | keyword | quoted => rfl
  | number | identifier => cases hk
  | symbol hs => exact absurd hk fun he => hs (by simp [← he, Lexeme.wordKinds])

theorem Scanned.eq_symbol {t : Token} (h : Scanned t) (hk : t.kind ∉ Lexeme.wordKinds) :
    t = { kind := t.kind } := by
  cases h with
  | symbol => rfl
  | number | identifier | keyword | quoted => simp [Lexeme.wordKinds, Token.quoted] at hk

end Token

/-- A lexeme reads as one of the scanned tokens, a blank or the end. -/
theorem Lexeme.scanned_of_read {cs : List Char} {l : Lexeme} {t : Token} (h : first? cs = some l)
    (hr : l.read = .ok t) (hs : l.rule ≠ .stop) (hw : t.kind ≠ .whitespace) : Token.Scanned t := by
  cases first?_eq_some_iff.mp h with
  | number hd =>
    simp only [read] at hr
    split at hr
    · cases hr
    · split at hr <;> cases hr
      exact .number _
  | word hd hl =>
    simp only [read] at hr
    split at hr <;> cases hr
    · rename_i hk; exact .keyword hk
    · rename_i hk
      refine .identifier ⟨_, _, rfl, hl, fun d hd => ?_⟩ hk
      simpa using List.all_eq_true.mp List.all_takeWhile d hd
  | quoted => cases hr; exact .quoted _
  | equals => cases hr; exact .symbol (by simp [wordKinds])
  | @single c cs hd hl hq he =>
    rcases singleRule_cases c with hc | ⟨k, hk, hc⟩
    · simp only [List.mem_cons, List.not_mem_nil, or_false] at hc
      rcases hc with hc | hc | hc
      · simp only [read, hc, Except.ok.injEq] at hr
        exact absurd (by rw [← hr]) hw
      · exact absurd hc hs
      · simp [read, hc] at hr
    · simp only [read, hc, Except.ok.injEq] at hr
      exact hr ▸ .symbol hk

namespace Tokens

/-- Each token of a text is read from one of its lexemes. -/
theorem exists_read_of_mem_plain {cs : List Char} {t : Token} (h : t ∈ (plain cs).toList) :
    ∃ ds l, Lexeme.first? ds = some l ∧ l.read = .ok t ∧ l.rule ≠ .stop ∧ t.kind ≠ .whitespace := by
  cases hf : Lexeme.first? cs with
  | none =>
    cases cs with
    | nil => simp [toList] at h
    | cons c cs => simp [Lexeme.first?] at hf
  | some l =>
    have hlt := Lexeme.length_rest_lt hf
    rw [plain_of_first? hf] at h
    cases hr : l.read with
    | error p => simp [hr, toList] at h
    | ok t' =>
      by_cases hs : l.rule = .stop
      · simp [hr, hs, toList] at h
      by_cases hw : t'.kind = .whitespace
      · simp only [hr, hs, hw, if_true, if_false] at h
        exact exists_read_of_mem_plain h
      · simp only [hr, hs, hw, if_false, toList, List.mem_cons] at h
        rcases h with rfl | h
        · exact ⟨cs, l, hf, hr, hs, hw⟩
        · exact exists_read_of_mem_plain h
termination_by cs.length

theorem scanned_of_mem_plain {cs : List Char} {t : Token} (h : t ∈ (plain cs).toList) :
    Token.Scanned t := by
  obtain ⟨ds, l, hf, hr, hs, hw⟩ := exists_read_of_mem_plain h
  exact Lexeme.scanned_of_read hf hr hs hw

/-- An operator or bracket of one character is read as it is. -/
theorem plain_symbol {c : Char} {k : Token.Kind} (hr : Lexeme.singleRule c = .symbol k)
    (hd : c.isDigit = false) (hl : c.isLower = false) (hq : c ≠ '"') (he : c ≠ '=')
    (hk : k ≠ .whitespace) (cs : List Char) : plain (c :: cs) = cons { kind := k } (plain cs) := by
  rw [plain_of_first? (Lexeme.first?_eq_some_iff.mpr (.single hd hl hq fun h => absurd h he))]
  simp [Lexeme.read, hr, hk]

/-- A blank of the language is no token. -/
theorem plain_blank {c : Char} (hr : Lexeme.singleRule c = .blank) (cs : List Char) :
    plain (c :: cs) = plain cs := by
  have hc : c ∈ [' ', '\t', '\r', '\n'] := by
    unfold Lexeme.singleRule at hr
    split at hr <;> simp_all
  have hs : Lexeme.Starts (c :: cs) ⟨Lexeme.singleRule c, [c], cs⟩ := by
    simp only [List.mem_cons, List.not_mem_nil, or_false] at hc
    rcases hc with rfl | rfl | rfl | rfl <;>
      exact .single rfl rfl (by decide) fun h => absurd h (by decide)
  rw [plain_of_first? (Lexeme.first?_eq_some_iff.mpr hs)]
  simp [Lexeme.read, hr]

/-- A text whose quotes are closed is scanned on its own. The character NUL would end it. -/
theorem plain_append {cs ds : List Char} (hn : '\x00' ∉ cs) (ho : ¬ Lexeme.EndsOpen cs)
    (hd : Text.Separated ds) : plain (cs ++ ds) = plain cs ++ plain ds := by
  cases h : Lexeme.first? cs with
  | none =>
    cases cs with
    | nil => simp
    | cons c cs => simp [Lexeme.first?] at h
  | some l =>
    have hlt := Lexeme.length_rest_lt h
    rw [plain_of_first? h, plain_of_first? (Lexeme.first?_append h (fun hl => ho (.here h hl)) hd),
      Lexeme.read_append l hd]
    simp only [Lexeme.rule_ne_stop h hn, if_false]
    cases ht : l.read with
    | error p => rfl
    | ok t =>
      have ih := plain_append (Lexeme.not_mem_rest h hn) (fun hr => ho (.later h ht hr)) hd
      simp only [ih]
      split <;> rfl
termination_by cs.length

end Tokens

theorem Lexeme.plain_quoted (cs : List Char) :
    Tokens.plain ('"' :: cs) =
      .cons (Token.quoted (cs.takeWhile (· != '"'))) (Tokens.plain (splitQuoted cs).2) := by
  rw [Tokens.plain_of_first? (first?_eq_some_iff.mpr .quoted)]
  simp [read, takeWhile_splitQuoted, Token.quoted]

/-- A text that ends inside of quotes ends with a quoted text, which goes on with what follows. -/
theorem Lexeme.EndsOpen.plain_append {cs : List Char} (ho : EndsOpen cs) (hn : '\x00' ∉ cs) :
    ∃ ts body, Tokens.plain cs = Tokens.ofList (ts ++ [Token.quoted body]) ∧
      ∀ ds, Text.Separated ds → Tokens.plain (cs ++ ds) =
        Tokens.ofList (ts ++ [Token.quoted (body ++ ds.takeWhile (· != '"'))]) ++
          Tokens.plain (splitQuoted ds).2 := by
  induction ho with
  | @here cs l h ho =>
    obtain ⟨body, rfl, hb, rfl⟩ := ho.eq_cons h
    have hall : ∀ c ∈ body, (c != '"') = true := by
      rintro c hc
      simpa using ne_of_mem_of_not_mem hc hb
    have htake : body.takeWhile (· != '"') = body := List.takeWhile_eq_self_iff.mpr hall
    have hsplit := splitQuoted_append_of_not_mem hb []
    rw [List.append_nil] at hsplit
    refine ⟨[], body, ?_, fun ds _ => ?_⟩
    · rw [plain_quoted, htake, hsplit]
      simp [splitQuoted, Tokens.ofList]
    · rw [List.cons_append, plain_quoted, List.takeWhile_append_of_pos hall,
        splitQuoted_append_of_not_mem hb]
      rfl
  | @later cs l t h hr ho ih =>
    obtain ⟨ts, body, hp, hds⟩ := ih (not_mem_rest h hn)
    have hstop := rule_ne_stop h hn
    have hopen : ¬ l.Open := by
      intro hl
      obtain ⟨_, _, _, rfl⟩ := hl.eq_cons h
      cases ho with
      | here h' | later h' => cases h'
    refine ⟨[t].filter (·.kind ≠ .whitespace) ++ ts, body, ?_, fun ds hd => ?_⟩
    · rw [Tokens.plain_of_read h hr hstop, hp, ← Tokens.ofList_append, List.append_assoc]
    · have hread := (read_append l hd).trans hr
      rw [Tokens.plain_of_read (first?_append h hopen hd) hread hstop, hds ds hd,
        ← Tokens.append_assoc, ← Tokens.ofList_append, List.append_assoc]

end Scriptlet
