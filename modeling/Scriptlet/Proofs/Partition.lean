import Scriptlet.Proofs.Number.Numeral
import Scriptlet.Proofs.Scanning

/-!
# How a text is cut into lexemes

The lexical rules say which spans of characters are lexemes and which token each of them stands for.
The scanner cuts a text from left to right, and at every place it takes the longest span that any
rule allows. It goes on up to the end of the text, to a NUL where a token would start, or to a place
where there is nothing to take: a number that a parenthesis follows, a number that is too large, or
a character that no lexeme starts with.

## Main definitions

* `Lexeme.Means`: the lexical rules
* `Lexeme.Longest`: no rule allows a longer span
* `Lexeme.Refuses`: why a text does not start with a token
* `Scanner.Partition`: a text as lexemes and what is left of it
* `Scanner.Answers`: what a scanner answers to any number of calls

## Main statements

* `Lexeme.longest_of_first?`: the first lexeme is as long as the rules allow
* `Lexeme.refuses_iff`: a lexeme is refused for one of the three reasons, and only then
* `Scanner.partition_ofText`: the scanner partitions its text
-/

namespace Scriptlet

namespace Lexeme

/-! ## The rules -/

/-- The kinds of the operators and brackets. -/
def symbols : List Token.Kind :=
  [.add, .subtract, .multiply, .divide, .power, .assign, .equals, .leftParen, .rightParen,
    .leftBrace, .rightBrace]

/-- The spans that the lexical rules allow, each with the token that it stands for, on no line. -/
inductive Means : List Char → Token → Prop where
  | number {span : List Char} (h : Decimal.IsNumeral span) :
      Means span { kind := .number, number := (Decimal.ofDigits span).toFloat }
  | keyword {word : String} {k : Keyword} (hk : Keyword.ofWord? word = some k) :
      Means word.toList { kind := .literal, text := word, keyword := k }
  | identifier {word : String} (hw : Text.IsWord word) (hk : Keyword.ofWord? word = none) :
      Means word.toList { kind := .identifier, text := word }
  | quoted {body : List Char} (hb : '"' ∉ body) : Means ('"' :: (body ++ ['"'])) (.quoted body)
  /-- Without a quote that closes it, a quoted text goes on to the end, where it is the longest. -/
  | opened {body : List Char} (hb : '"' ∉ body) : Means ('"' :: body) (.quoted body)
  | symbol {k : Token.Kind} (hk : k ∈ symbols) : Means k.name.toList { kind := k }
  | blank {c : Char} (hc : c ∈ [' ', '\t', '\r', '\n']) : Means [c] { kind := .whitespace }

/-- No rule allows a longer span at the start of `span ++ rest`. -/
def Longest (span rest : List Char) : Prop :=
  ∀ other t, other <+: span ++ rest → Means other t → other.length ≤ span.length

/-- Why a text starts with no token, though it has not ended. -/
inductive Refuses : List Char → ScanProblem → Prop where
  | called {span rest : List Char} (hn : Decimal.IsNumeral span) (hl : Longest span ('(' :: rest)) :
      Refuses (span ++ '(' :: rest) (.calledNumber span)
  | huge {span rest : List Char} (hn : Decimal.IsNumeral span) (hl : Longest span rest)
      (hp : rest.head? ≠ some '(') (hi : (Decimal.ofDigits span).toFloat.isInf) :
      Refuses (span ++ rest) (.hugeNumber span)
  | unexpected {c : Char} {rest : List Char} (hc : c ≠ '\x00') (h : ∀ cs t, ¬ Means (c :: cs) t) :
      Refuses (c :: rest) (.unexpected c)

/-! ## Characters -/

variable {c : Char} {k : Token.Kind} {cs span rest : List Char} {t : Token} {l : Lexeme}

theorem isLower_eq_false_of_isDigit (h : c.isDigit) : c.isLower = false := by
  rw [Bool.eq_false_iff]
  intro hl
  simp only [Char.isDigit, Char.isLower, Bool.and_eq_true, decide_eq_true_eq,
    UInt32.le_iff_toNat_le] at h hl
  have h9 : '9'.val.toNat = 57 := rfl
  have ha : 'a'.val.toNat = 97 := rfl
  omega

/-- The rules for a character that stands alone, with the characters that have them. -/
theorem singleRule_cases_char (c : Char) : singleRule c = .unknown ∨
    (singleRule c = .stop ∧ c = '\x00') ∨
    (singleRule c = .blank ∧ c ∈ [' ', '\t', '\r', '\n']) ∨
    ∃ k ∈ symbols, singleRule c = .symbol k ∧ k.name.toList = [c] := by
  unfold singleRule
  split <;> simp [symbols, Token.Kind.name]

/-- A symbol is a lexeme of one character, except for the test for equality. -/
theorem toList_name_of_mem_symbols (h : k ∈ symbols) :
    k.name.toList = ['=', '='] ∨ ∃ c, k.name.toList = [c] ∧ singleRule c = .symbol k := by
  simp only [symbols, List.mem_cons, List.not_mem_nil, or_false] at h
  rcases h with rfl | rfl | rfl | rfl | rfl | rfl | rfl | rfl | rfl | rfl | rfl
  case inr.inr.inr.inr.inr.inr.inl => exact .inl rfl
  all_goals exact .inr ⟨_, rfl, rfl⟩

/-! ## The longest span -/

/-- How a lexeme goes on after its first character, as far as its length depends on it. -/
inductive GoesOn : Char → List Char → Prop where
  | number {c : Char} {cs : List Char} (hc : c.isDigit) (hcs : ∀ d ∈ cs, d.isDigit ∨ d = '.')
      (hp : cs.count '.' ≤ 1) : GoesOn c cs
  | word {c : Char} {cs : List Char} (hc : c.isLower) (hcs : ∀ d ∈ cs, Text.isBlank d = false) :
      GoesOn c cs
  | quoted {cs : List Char} (hcs : '"' ∉ cs.dropLast) : GoesOn '"' cs
  | equals : GoesOn '=' ['=']
  | single {c : Char} (hr : singleRule c ≠ .unknown) (hs : singleRule c ≠ .stop) : GoesOn c []

theorem exists_cons_of_isNumeral (h : Decimal.IsNumeral span) : ∃ c cs, span = c :: cs ∧
    c.isDigit ∧ (∀ d ∈ cs, d.isDigit ∨ d = '.') ∧ cs.count '.' ≤ 1 := by
  have hpoint {ds : List Char} (hd : ∀ d ∈ ds, d.isDigit) : ds.count '.' = 0 :=
    List.count_eq_zero.mpr fun hm => absurd (hd '.' hm) (by decide)
  cases h with
  | whole hn hd =>
    obtain ⟨c, cs, rfl⟩ := List.exists_cons_of_ne_nil hn
    obtain ⟨hc, hcs⟩ := List.forall_mem_cons.mp hd
    exact ⟨c, cs, rfl, hc, by grind, by simp [hpoint hcs]⟩
  | @point ds fs hn hd hf =>
    obtain ⟨c, cs, rfl⟩ := List.exists_cons_of_ne_nil hn
    obtain ⟨hc, hcs⟩ := List.forall_mem_cons.mp hd
    exact ⟨c, cs ++ '.' :: fs, rfl, hc, by grind, by simp [hpoint hcs, hpoint hf]⟩

theorem goesOn_of_isWord {word : String} (h : Text.IsWord word) :
    ∃ c cs, word.toList = c :: cs ∧ GoesOn c cs := by
  obtain ⟨c, cs, rfl, hc, hcs⟩ := h
  exact ⟨c, cs, String.toList_ofList, .word hc hcs⟩

theorem Means.exists_goesOn (h : Means span t) : ∃ c cs, span = c :: cs ∧ GoesOn c cs := by
  cases h with
  | number hn =>
    obtain ⟨c, cs, rfl, hc, hcs, hp⟩ := exists_cons_of_isNumeral hn
    exact ⟨c, cs, rfl, .number hc hcs hp⟩
  | keyword hk => exact goesOn_of_isWord (Keyword.isWord_of_ofWord? hk)
  | identifier hw => exact goesOn_of_isWord hw
  | quoted hb => exact ⟨_, _, rfl, .quoted (by simpa using hb)⟩
  | opened hb => exact ⟨_, _, rfl, .quoted fun hm => hb (List.mem_of_mem_dropLast hm)⟩
  | symbol hk =>
    rcases toList_name_of_mem_symbols hk with hs | ⟨c, hs, hr⟩
    · exact ⟨_, _, hs, .equals⟩
    · exact ⟨c, [], hs, .single (by simp [hr]) (by simp [hr])⟩
  | @blank c hc =>
    have hr : singleRule c = .blank := by
      simp only [List.mem_cons, List.not_mem_nil, or_false] at hc
      rcases hc with rfl | rfl | rfl | rfl <;> rfl
    exact ⟨c, [], rfl, .single (by simp [hr]) (by simp [hr])⟩

theorem length_le_splitNumber (seen : Bool) {ds cs : List Char} (h : ds <+: cs)
    (hd : ∀ d ∈ ds, d.isDigit ∨ d = '.') (hp : ds.count '.' ≤ if seen then 0 else 1) :
    ds.length ≤ (splitNumber seen cs).1.length := by
  induction ds generalizing seen cs with
  | nil => simp
  | cons d ds ih =>
    obtain ⟨rest, rfl⟩ := h
    have h : ds <+: ds ++ rest := List.prefix_append ds rest
    obtain ⟨hd, hds⟩ := List.forall_mem_cons.mp hd
    by_cases hdigit : d.isDigit
    · have hne : d ≠ '.' := fun he => absurd hdigit (by simp [he, Char.isDigit])
      rw [List.count_cons_of_ne hne] at hp
      simpa [splitNumber, hdigit] using ih seen h hds hp
    · obtain rfl : d = '.' := hd.resolve_left hdigit
      rw [List.count_cons_self] at hp
      cases seen with
      | true => simp at hp
      | false => simpa [splitNumber, hdigit] using ih true h hds (by simpa using hp)

theorem length_le_splitQuoted {ds cs : List Char} (h : ds <+: cs) (hd : '"' ∉ ds.dropLast) :
    ds.length ≤ (splitQuoted cs).1.length := by
  induction ds generalizing cs with
  | nil => simp
  | cons d ds ih =>
    obtain ⟨rest, rfl⟩ := h
    cases ds with
    | nil => by_cases hq : d = '"' <;> simp [splitQuoted, hq]
    | cons e ds =>
      obtain ⟨hq, hds⟩ : ¬ '"' = d ∧ '"' ∉ (e :: ds).dropLast := by
        simpa only [List.dropLast_cons_cons, List.mem_cons, not_or] using hd
      have ih := ih (List.prefix_append (e :: ds) rest) hds
      simpa [splitQuoted, Ne.symm hq] using ih

theorem length_le_takeWhile {α : Type} {p : α → Bool} {as bs : List α} (h : as <+: bs)
    (ha : ∀ a ∈ as, p a) : as.length ≤ (bs.takeWhile p).length := by
  obtain ⟨rest, rfl⟩ := h
  simp [List.takeWhile_append_of_pos ha]

/--
The first lexeme is as long as any lexeme that the text starts with. The two have their first
character in common, so in most cases the rules for that character do not go together.
-/
theorem Starts.length_le {text : List Char} (h : Starts (c :: text) l) (hg : GoesOn c cs)
    (hp : cs <+: text) : (c :: cs).length ≤ l.span.length := by
  cases hg with
  | single => exact List.length_pos_iff.mpr (span_ne_nil (first?_eq_some_iff.mpr h))
  | number hc hcs hpoint =>
    cases h with
    | number => simpa using length_le_splitNumber false hp hcs hpoint
    | word hd | single hd => simp [hc] at hd
    | quoted | equals => cases hc
  | word hc hcs =>
    cases h with
    | word => simpa using length_le_takeWhile hp fun d hd => by simp [hcs d hd]
    | number hd => simp [isLower_eq_false_of_isDigit hd] at hc
    | single _ hl => simp [hc] at hl
    | quoted | equals => cases hc
  | quoted hcs =>
    cases h with
    | quoted => simpa using length_le_splitQuoted hp hcs
    | number hd | word _ hd => cases hd
    | single _ _ hq => exact absurd rfl hq
  | equals =>
    cases h with
    | equals => simp
    | number hd | word _ hd => cases hd
    | single _ _ _ he =>
      obtain ⟨rest, rfl⟩ := hp
      exact absurd rfl (he rfl)

theorem longest_of_first? (h : first? cs = some l) : Longest l.span l.rest := by
  intro other t hp ho
  obtain ⟨c, ds, rfl, hg⟩ := ho.exists_goesOn
  obtain ⟨rest, htext⟩ := hp
  rw [← span_append_rest h, ← htext] at h
  exact (first?_eq_some_iff.mp h).length_le hg (List.prefix_append ds rest)

/-! ## What a lexeme is read as -/

theorem isNumeral_cons (hc : c.isDigit) (h : Decimal.IsNumeral span) :
    Decimal.IsNumeral (c :: span) := by
  cases h with
  | whole hn hd => exact .whole (by simp) (List.forall_mem_cons.mpr ⟨hc, hd⟩)
  | point hn hd hf => exact .point (List.cons_ne_nil c _) (List.forall_mem_cons.mpr ⟨hc, hd⟩) hf

/-- What the scanner takes for a number is a numeral: after a point it takes only digits. -/
theorem isNumeral_splitNumber (hc : c.isDigit) (cs : List Char) :
    Decimal.IsNumeral (c :: (splitNumber false cs).1) := by
  have hdigits (cs : List Char) : ∀ d ∈ (splitNumber true cs).1, d.isDigit := by
    induction cs with
    | nil => simp [splitNumber]
    | cons d cs ih => by_cases hd : d.isDigit <;> simp_all [splitNumber]
  induction cs generalizing c with
  | nil => exact .whole (by simp) (by simpa [splitNumber] using hc)
  | cons d cs ih =>
    by_cases hd : d.isDigit
    · simpa [splitNumber, hd] using isNumeral_cons hc (ih hd)
    · by_cases hp : d = '.'
      · simpa [splitNumber, hd, hp] using
          Decimal.IsNumeral.point (List.cons_ne_nil c []) (by simpa using hc) (hdigits cs)
      · exact .whole (by simp) (by simpa [splitNumber, hd, hp] using hc)

theorem means_splitQuoted (cs : List Char) :
    Means ('"' :: (splitQuoted cs).1) (.quoted (cs.takeWhile (· != '"'))) := by
  have hb : '"' ∉ cs.takeWhile (· != '"') := fun hm => by
    simpa using List.all_eq_true.mp List.all_takeWhile _ hm
  have hs := splitQuoted_append_of_not_mem hb (cs.dropWhile (· != '"'))
  rw [List.takeWhile_append_dropWhile] at hs
  -- What is dropped is nothing, or it starts with the closing quote.
  cases hd : cs.dropWhile (· != '"') with
  | nil => simpa [hs, hd, splitQuoted] using Means.opened hb
  | cons d ds =>
    have hq : d = '"' := by
      simpa [hd] using List.head_dropWhile_not (p := (· != '"')) (l := cs) (by simp [hd])
    simpa [hs, hd, hq, splitQuoted] using Means.quoted hb

/-- Only the character NUL ends a text early. -/
theorem eq_cons_of_stop (h : first? cs = some l) (hs : l.rule = .stop) :
    ∃ rest, cs = '\x00' :: rest ∧ l.span = ['\x00'] := by
  cases first?_eq_some_iff.mp h with
  | number | word | quoted | equals => cases hs
  | @single c cs =>
    obtain rfl := singleRule_eq_stop hs
    exact ⟨cs, rfl, rfl⟩

/-- A lexeme that is read stands for its token by the rules. -/
theorem means_of_read (h : first? cs = some l) (hr : l.read = .ok t) (hs : l.rule ≠ .stop) :
    Means l.span t := by
  cases first?_eq_some_iff.mp h with
  | number hd =>
    simp only [read] at hr
    split at hr
    · cases hr
    · split at hr <;> cases hr
      exact .number (isNumeral_splitNumber hd _)
  | @word c cs hd hl =>
    have hw : Text.IsWord (String.ofList (c :: cs.takeWhile (!Text.isBlank ·))) := by
      refine ⟨_, _, rfl, hl, fun d hd => ?_⟩
      simpa using List.all_eq_true.mp List.all_takeWhile d hd
    simp only [read] at hr
    split at hr <;> cases hr
    · rename_i hk
      simpa using Means.keyword hk
    · rename_i hk
      simpa using Means.identifier hw hk
  | @quoted cs =>
    cases hr
    simpa [takeWhile_splitQuoted, Token.quoted] using means_splitQuoted cs
  | equals =>
    cases hr
    exact .symbol (k := .equals) (by decide)
  | @single c cs hd hl hq he =>
    rcases singleRule_cases_char c with hc | ⟨hc, -⟩ | ⟨hc, hb⟩ | ⟨k, hk, hc, hn⟩
    · simp [read, hc] at hr
    · exact absurd hc hs
    · simp only [read, hc, Except.ok.injEq] at hr
      exact hr ▸ .blank hb
    · simp only [read, hc, Except.ok.injEq] at hr
      simpa [hr, hn] using Means.symbol hk

/-- A text that starts with a numeral which cannot go on has that numeral as its first lexeme. -/
theorem first?_of_isNumeral (hn : Decimal.IsNumeral span) (hl : Longest span rest) :
    first? (span ++ rest) = some ⟨.number, span, rest⟩ := by
  obtain ⟨c, cs, rfl, hc, -⟩ := exists_cons_of_isNumeral hn
  have hf : first? (c :: (cs ++ rest)) = some _ := first?_eq_some_iff.mpr (.number hc)
  have happ := span_append_rest hf
  -- Each of the two numerals is at most as long as the other one.
  have hle := longest_of_first? hf (c :: cs) _ (happ ▸ List.prefix_append (c :: cs) rest)
    (.number hn)
  have hge := hl _ _ ⟨_, happ⟩ (.number (isNumeral_splitNumber hc (cs ++ rest)))
  obtain ⟨hspan, hrest⟩ := List.append_inj happ (le_antisymm hge hle)
  rw [List.cons_append, hf]
  simp_all

/-- No lexeme starts with a character for which there is no rule. -/
theorem not_means_of_unknown (hr : singleRule c = .unknown) (hd : c.isDigit = false)
    (hl : c.isLower = false) (hq : c ≠ '"') : ¬ Means (c :: cs) t := by
  intro h
  obtain ⟨_, _, heq, hg⟩ := h.exists_goesOn
  cases heq
  cases hg with
  | number hc => simp [hc] at hd
  | word hc => simp [hc] at hl
  | quoted => exact hq rfl
  | equals => cases hr
  | single hn => exact hn hr

theorem refuses_of_read {p : ScanProblem} (h : first? cs = some l) (hr : l.read = .error p) :
    Refuses cs p := by
  have hl := longest_of_first? h
  rw [← span_append_rest h]
  cases first?_eq_some_iff.mp h with
  | @number c cs hd =>
    have hn := isNumeral_splitNumber hd cs
    simp only [read] at hr
    split at hr
    · rename_i hp
      cases hr
      obtain ⟨rest, hrest⟩ := List.head?_eq_some_iff.mp hp
      dsimp only at hl ⊢
      rw [hrest] at hl ⊢
      exact .called hn hl
    · rename_i hp
      split at hr <;> cases hr
      rename_i hi
      exact .huge hn hl hp hi
  | word =>
    simp only [read] at hr
    split at hr <;> cases hr
  | quoted | equals => cases hr
  | @single c cs hd hlow hq he =>
    rcases singleRule_cases_char c with hc | ⟨hc, -⟩ | ⟨hc, -⟩ | ⟨k, -, hc, -⟩
    · obtain rfl : p = .unexpected c := by simpa [read, hc] using hr.symm
      refine .unexpected ?_ fun _ _ => not_means_of_unknown hc hd hlow hq
      rintro rfl
      cases hc
    all_goals simp [read, hc] at hr

/-- Each class of first characters has a lexeme of one character, except for NUL and the unknown. -/
theorem first?_of_not_means (hc : c ≠ '\x00') (h : ∀ t, ¬ Means [c] t) (rest : List Char) :
    first? (c :: rest) = some ⟨.unknown, [c], rest⟩ := by
  have hd : c.isDigit = false := by
    rw [Bool.eq_false_iff]
    exact fun hd => h _ (.number (.whole (by simp) (by simpa using hd)))
  have hl : c.isLower = false := by
    rw [Bool.eq_false_iff]
    intro hl
    have hw : Text.IsWord (String.ofList [c]) := ⟨c, [], rfl, hl, nofun⟩
    cases hk : Keyword.ofWord? (String.ofList [c]) with
    | none => exact h _ (by simpa using Means.identifier hw hk)
    | some k => exact h _ (by simpa using Means.keyword hk)
  have hq : c ≠ '"' := by
    rintro rfl
    exact h _ (.opened nofun)
  have hr : singleRule c = .unknown := by
    rcases singleRule_cases_char c with hr | ⟨-, hn⟩ | ⟨-, hb⟩ | ⟨k, hk, -, hn⟩
    · exact hr
    · exact absurd hn hc
    · exact absurd (.blank hb) (h _)
    · exact absurd (by simpa [hn] using Means.symbol hk) (h _)
  have he : c ≠ '=' := by
    rintro rfl
    cases hr
  exact first?_eq_some_iff.mpr (hr ▸ .single hd hl hq fun h => absurd h he)

/-- A text is refused if its first lexeme cannot be read, and only then. -/
theorem refuses_iff {p : ScanProblem} :
    Refuses cs p ↔ ∃ l, first? cs = some l ∧ l.read = .error p := by
  refine ⟨fun h => ?_, fun ⟨l, hf, hr⟩ => refuses_of_read hf hr⟩
  cases h with
  | called hn hl => exact ⟨_, first?_of_isNumeral hn hl, by simp [read]⟩
  | huge hn hl hp hi => exact ⟨_, first?_of_isNumeral hn hl, by simp [read, hp, hi]⟩
  | unexpected hc h => exact ⟨_, first?_of_not_means hc (h []) _, rfl⟩

end Lexeme

namespace Scanner

open Lexeme

/-! ## The calls of a scanner -/

/-- The text is the spans of the pieces and then `tail`; each piece is the longest at its place. -/
structure Partition (text : List Char) (pieces : List (List Char × Token)) (tail : List Char) :
    Prop where
  cover : text = (pieces.map Prod.fst).flatten ++ tail
  lexeme : ∀ before span t after, pieces = before ++ (span, t) :: after →
    span ≠ [] ∧ Means span t.bare ∧ Longest span ((after.map Prod.fst).flatten ++ tail)

/--
The scanner answers with the tokens `ts`, and with `last` from then on. It has no failure up to the
last of the tokens, and `failure` from the next call on.
-/
structure Answers (s : Scanner) (ts : List Token) (last : Option Token)
    (failure : Option ScanError) : Prop where
  answers : ∀ k, (s.calls (ts.length + k)).1 = ts.map some ++ List.replicate k last
  before : ∀ k ≤ ts.length, (s.calls k).2.failure = none
  after : ∀ k > ts.length, (s.calls k).2.failure = failure

variable {s u : Scanner} {ts : List Token} {t : Token} {last : Option Token}
  {failure : Option ScanError} {text span rest tail : List Char}
  {pieces : List (List Char × Token)}

theorem partition_nil (text : List Char) : Partition text [] text := ⟨by simp, by simp⟩

theorem Partition.cons (h : Partition rest pieces tail) (hne : span ≠ []) (ht : Means span t.bare)
    (hl : Longest span rest) : Partition (span ++ rest) ((span, t) :: pieces) tail where
  cover := by simp [← h.cover]
  lexeme before span' t' after heq := by
    cases before with
    | nil =>
      obtain ⟨⟨rfl, rfl⟩, rfl⟩ : (span = span' ∧ t = t') ∧ pieces = after := by simpa using heq
      exact ⟨hne, ht, h.cover ▸ hl⟩
    | cons p before => exact h.lexeme before span' t' after (List.cons.inj heq).2

theorem Answers.cons (h : u.Answers ts last failure) (hs : s.failure = none)
    (hn : s.next = (some t, u)) : s.Answers (t :: ts) last failure where
  answers k := by
    rw [List.length_cons, Nat.add_right_comm]
    simp [calls, hn, h.answers k]
  before k hk := by
    cases k with
    | zero => exact hs
    | succ k => simpa [calls, hn] using h.before k (by simpa using hk)
  after k hk := by
    cases k with
    | zero => cases hk
    | succ k => simpa [calls, hn] using h.after k (by simpa using hk)

/-- A scanner that does not change any more gives the same answer for ever. -/
theorem calls_of_next_eq (h : u.next = (last, u)) (k : Nat) :
    u.calls k = (List.replicate k last, u) := by
  induction k with
  | zero => rfl
  | succ k ih => simp [calls, h, ih, List.replicate_succ]

theorem answers_nil (hs : s.failure = none) (hn : s.next = (last, u)) (hu : u.next = (last, u)) :
    s.Answers [] last u.failure where
  answers k := by
    cases k with
    | zero => rfl
    | succ k => simp [calls, hn, calls_of_next_eq hu, List.replicate_succ]
  before k hk := by
    obtain rfl : k = 0 := by simpa using hk
    exact hs
  after k hk := by
    cases k with
    | zero => cases hk
    | succ k => simp [calls, hn, calls_of_next_eq hu]

theorem next_of_failure {e : ScanError} (h : s.failure = some e) : s.next = (none, s) := by
  simp [next, h]

theorem next_nil (line : Nat) :
    next ⟨[], line, none⟩ = (some (Token.endOfInput line), ⟨[], line, none⟩) := by
  simp [next, first?]

/-- A text without a failure is answered token by token, and then with its end. -/
theorem exists_answers_ofChars (cs : List Char) (line : Nat)
    (h : (Tokens.ofChars cs line).failure? = none) :
    ∃ last, Answers ⟨cs, line, none⟩ (Tokens.ofChars cs line).toList
      (some (Token.endOfInput last)) none := by
  fun_induction Tokens.ofChars cs line with
  | case1 cs line hf =>
    have hn : next ⟨cs, line, none⟩ = (some (Token.endOfInput line), ⟨cs, line, none⟩) := by
      simp [next, hf]
    exact ⟨line, answers_nil rfl hn hn⟩
  | case2 cs line l hf p hp => simp [Tokens.failure?] at h
  | case3 cs line l hf t ht hr =>
    obtain ⟨_, rfl, hspan⟩ := eq_cons_of_stop hf hr
    have he : t = { kind := .endOfInput } := by simpa [Lexeme.read, hr] using ht.symm
    exact ⟨line, answers_nil rfl (by simp [next, hf, ht, hr, he, hspan, remainder, Token.endOfInput])
      (next_nil line)⟩
  | case4 cs line l hf t ht hr ih =>
    obtain ⟨last, hl⟩ := ih h
    exact ⟨last, hl.cons rfl (by simp [next, hf, ht])⟩

/-- How the scanner goes through a text from a place on, by the lexeme at that place. -/
theorem exists_partition (cs : List Char) (line : Nat) :
    ∃ pieces tail, Partition cs pieces tail ∧
      ((tail = [] ∨ tail.head? = some '\x00') ∧ (∃ last, Answers ⟨cs, line, none⟩
          (pieces.map Prod.snd) (some (Token.endOfInput last)) none) ∨
        ∃ p last, Refuses tail p ∧
          Answers ⟨cs, line, none⟩ (pieces.map Prod.snd) none (some ⟨p, last⟩)) := by
  cases hf : first? cs with
  | none =>
    obtain rfl : cs = [] := by cases cs <;> simp_all [first?]
    refine ⟨[], [], partition_nil _, .inl ⟨.inl rfl, line, ?_⟩⟩
    exact answers_nil rfl (next_nil _) (next_nil _)
  | some l =>
    cases hr : l.read with
    | error p =>
      have hn : next ⟨cs, line, none⟩ = (none, ⟨cs, line, some ⟨p, line⟩⟩) := by simp [next, hf, hr]
      refine ⟨[], cs, partition_nil _, .inr ⟨p, line, refuses_of_read hf hr, ?_⟩⟩
      exact answers_nil rfl hn (next_of_failure rfl)
    | ok t =>
      have hn : next ⟨cs, line, none⟩ =
          (some { t with line }, ⟨l.remainder, line + l.span.count '\n', none⟩) := by
        simp [next, hf, hr]
      by_cases hs : l.rule = .stop
      · obtain ⟨rest, rfl, hspan⟩ := eq_cons_of_stop hf hs
        obtain rfl : t = { kind := .endOfInput } := by simpa [Lexeme.read, hs] using hr.symm
        have hn' : next ⟨'\x00' :: rest, line, none⟩ =
            (some (Token.endOfInput line), ⟨[], line, none⟩) := by
          rw [hn, hspan]
          simp [remainder, hs, Token.endOfInput]
        exact ⟨[], _, partition_nil _, .inl ⟨.inr rfl, line, answers_nil rfl hn' (next_nil _)⟩⟩
      · have hlt := length_rest_lt hf
        have hrest : l.remainder = l.rest := if_neg hs
        rw [hrest] at hn
        obtain ⟨pieces, tail, hp, hend⟩ := exists_partition l.rest (line + l.span.count '\n')
        refine ⟨(l.span, { t with line }) :: pieces, tail, ?_, ?_⟩
        · rw [← span_append_rest hf]
          refine hp.cons (span_ne_nil hf) ?_ (longest_of_first? hf)
          rw [bare_of_read hr]
          exact means_of_read hf hr hs
        · rcases hend with ⟨htail, last, ha⟩ | ⟨p, last, hrefuse, ha⟩
          · exact .inl ⟨htail, last, ha.cons rfl hn⟩
          · exact .inr ⟨p, last, hrefuse, ha.cons rfl hn⟩
termination_by cs.length

/-- A scanner that has not failed fails at a text that is refused, and at no other. -/
theorem next_eq_none_iff (hs : s.failure = none) : s.next.1 = none ↔ ∃ p, Refuses s.rest p := by
  simp only [refuses_iff, next, hs, Option.isSome_none, Bool.false_eq_true, if_false]
  cases hf : first? s.rest with
  | none => simp
  | some l => cases hr : l.read <;> simp [hr]

/--
The scanner cuts its text, from the start on, into lexemes that are as long as the rules allow, and
answers with their tokens. What is left is nothing, or starts with NUL: then all further answers are
the end of the text, and there is no failure. Or what is left is refused: then there are no further
answers, and the failure stays the same. Whatever the state of a scanner that has not failed, a call
fails only if its text is refused.
-/
theorem partition_ofText (text : String) :
    (∃ pieces tail, Partition text.toList pieces tail ∧
      ((tail = [] ∨ tail.head? = some '\x00') ∧ (∃ line, (ofText text).Answers
          (pieces.map Prod.snd) (some (Token.endOfInput line)) none) ∨
        ∃ p line, Refuses tail p ∧
          (ofText text).Answers (pieces.map Prod.snd) none (some ⟨p, line⟩))) ∧
      ∀ s : Scanner, s.failure = none → (s.next.1 = none ↔ ∃ p, Refuses s.rest p) :=
  ⟨exists_partition text.toList 1, fun _ => next_eq_none_iff⟩

end Scanner

end Scriptlet
