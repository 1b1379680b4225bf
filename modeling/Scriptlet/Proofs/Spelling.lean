import Scriptlet.Proofs.Number.Numeral
import Scriptlet.Proofs.Scanning

/-!
# How tokens are spelled

Each kind of token has a spelling, which is scanned as just this token if what follows cannot go on
with it. After a word only a blank does; after anything else a closing parenthesis may follow too.
Spellings are put together by a blank, by a sign in front, or by a closing parenthesis behind.

## Main definitions

* `Text.Follows`: what may follow a spelling
* `Text.Spells`: a text that is scanned as the given tokens

## Main statements

* `Text.spells_identifier`, `Text.spells_numeral`, `Text.spells_quoted`: the spellings of the operands
* `Text.Spells.space`, `Text.Spells.symbol`, `Text.Spells.rightParen`: how spellings are put together
-/

namespace Scriptlet

namespace Text

/-- What follows is a blank, or a closing parenthesis unless the text in front ends with a word. -/
def Follows (word : Bool) (ds : List Char) : Prop :=
  ∀ c ∈ ds.head?, isBlank c ∨ word = false ∧ c = ')'

/-- Whatever follows, the text `cs` is scanned as `ts`; the flag tells if it ends with a word. -/
def Spells (cs : List Char) (ts : List Token) (word : Bool) : Prop :=
  ∀ ds, Follows word ds → Tokens.plain (cs ++ ds) = Tokens.ofList ts ++ Tokens.plain ds

variable {cs ds : List Char} {ts ts' : List Token} {word word' : Bool}

theorem follows_of_separated (h : Separated ds) : Follows word ds :=
  fun c hc => .inl (h c hc)

theorem Follows.separated (h : Follows true ds) : Separated ds := by
  intro c hc
  simpa using h c hc

/-- No blank and no parenthesis goes on with a numeral or an equality sign. -/
theorem Follows.head (h : Follows word ds) :
    ∀ c ∈ ds.head?, c.isDigit = false ∧ c ≠ '.' ∧ c ≠ '(' ∧ c ≠ '=' := by
  intro c hc
  rcases h c hc with hb | ⟨-, rfl⟩
  · refine ⟨not_isDigit_of_isBlank hb, ?_, ?_, ?_⟩ <;> rintro rfl <;> simp [isBlank] at hb
  · decide

theorem Spells.weaken (h : Spells cs ts word) : Spells cs ts true :=
  fun ds hd => h ds (follows_of_separated hd.separated)

theorem Spells.nil : Spells [] [] word := fun _ _ => rfl

/-- With nothing behind it, the text is scanned as its tokens and ends properly. -/
theorem Spells.plain_eq (h : Spells cs ts word) : Tokens.plain cs = Tokens.ofList ts := by
  have hs := h [] (follows_of_separated separated_nil)
  rwa [List.append_nil, Tokens.plain_nil, ← Tokens.ofList.eq_1, ← Tokens.ofList_append,
    List.append_nil] at hs

/-! ## Putting spellings together -/

theorem Spells.space (h : Spells cs ts word) (h' : Spells ds ts' word') :
    Spells (cs ++ ' ' :: ds) (ts ++ ts') word' := by
  intro rest hr
  rw [List.append_assoc, List.cons_append, h _ (follows_of_separated (separated_cons rfl)),
    Tokens.plain_blank rfl, h' rest hr, Tokens.ofList_append, Tokens.append_assoc]

theorem Spells.blank (h : Spells cs ts word) : Spells (' ' :: cs) ts word := by
  intro rest hr
  rw [List.cons_append, Tokens.plain_blank rfl, h rest hr]

/-- A text that brings its own blank can follow any other. -/
theorem Spells.append (h : Spells cs ts word) (hd : Separated ds) (h' : Spells ds ts' true) :
    Spells (cs ++ ds) (ts ++ ts') true := by
  intro rest hr
  have hsep : Follows word (ds ++ rest) := follows_of_separated (hd.append hr.separated)
  rw [List.append_assoc, h _ hsep, h' rest hr, Tokens.ofList_append,
    Tokens.append_assoc]

/-- An operator or bracket of one character in front of a text. -/
theorem Spells.symbol {c : Char} {k : Token.Kind} (hr : Lexeme.singleRule c = .symbol k)
    (hd : c.isDigit = false) (hl : c.isLower = false) (hq : c ≠ '"') (he : c ≠ '=')
    (hk : k ≠ .whitespace) (h : Spells cs ts word) : Spells (c :: cs) ({ kind := k } :: ts) word := by
  intro rest hf
  rw [List.cons_append, Tokens.plain_symbol hr hd hl hq he hk, h rest hf]
  rfl

theorem Spells.minus (h : Spells cs ts word) : Spells ('-' :: cs) ({ kind := .subtract } :: ts) word :=
  .symbol rfl rfl rfl (by decide) (by decide) (by decide) h

theorem Spells.leftParen (h : Spells cs ts word) :
    Spells ('(' :: cs) ({ kind := .leftParen } :: ts) word :=
  .symbol rfl rfl rfl (by decide) (by decide) (by decide) h

theorem spells_leftBrace : Spells ['\x7b'] [{ kind := .leftBrace }] false :=
  .symbol rfl rfl rfl (by decide) (by decide) (by decide) .nil

theorem spells_rightBrace : Spells ['\x7d'] [{ kind := .rightBrace }] false :=
  .symbol rfl rfl rfl (by decide) (by decide) (by decide) .nil

/-- A closing parenthesis can follow what does not end with a word. -/
theorem Spells.rightParen (h : Spells cs ts false) :
    Spells (cs ++ [')']) (ts ++ [{ kind := .rightParen }]) false := by
  intro rest hr
  have hf : Follows false (')' :: rest) := by simp [Follows]
  have hs : Tokens.plain (')' :: rest) = .cons { kind := .rightParen } (Tokens.plain rest) :=
    Tokens.plain_symbol rfl rfl rfl (by decide) (by decide) (by decide) rest
  rw [List.append_assoc, List.singleton_append, h _ hf, hs, Tokens.ofList_append,
    Tokens.append_assoc]
  rfl

theorem spells_operator {op : Token.Kind} (h : op.isArithmetic) :
    Spells op.name.toList [{ kind := op }] false := by
  cases op with
  | add | subtract | multiply | divide | power =>
    exact .symbol rfl rfl rfl (by decide) (by decide) (by decide) .nil
  | _ => simp [Token.Kind.isArithmetic] at h

theorem spells_assign : Spells ['='] [{ kind := .assign }] false := by
  intro rest hf
  have hs : Lexeme.Starts ('=' :: rest) ⟨.symbol .assign, ['='], rest⟩ :=
    .single rfl rfl (by decide) fun _ hr => (hf.head '=' hr).2.2.2 rfl
  rw [List.singleton_append, Tokens.plain_of_first? (Lexeme.first?_eq_some_iff.mpr hs)]
  rfl

theorem spells_equals : Spells ['=', '='] [{ kind := .equals }] false := by
  intro rest _
  have hs : Lexeme.Starts ('=' :: '=' :: rest) ⟨.symbol .equals, ['=', '='], rest⟩ := .equals
  rw [List.cons_append, List.singleton_append,
    Tokens.plain_of_first? (Lexeme.first?_eq_some_iff.mpr hs)]
  rfl

/-! ## Operands -/

/-- A word runs to the next blank. -/
theorem plain_word {w : String} (hw : IsWord w) (hd : Separated ds) :
    Tokens.plain (w.toList ++ ds) =
      .cons (match Keyword.ofWord? w with
        | some k => { kind := .literal, text := w, keyword := k }
        | none => { kind := .identifier, text := w }) (Tokens.plain ds) := by
  obtain ⟨c, cs, rfl, hc, hcs⟩ := hw
  have hb : ∀ d ∈ cs, (!isBlank d) = true := fun d h => by simp [hcs d h]
  have hsep : ∀ d ∈ ds.head?, (!isBlank d) = false := fun d h => by simp [hd d h]
  have hall := takeWhile_append_of_head cs ds hsep
  have htake : cs.takeWhile (!isBlank ·) = cs := List.takeWhile_eq_self_iff.mpr hb
  have hdrop : cs.dropWhile (!isBlank ·) = [] := List.dropWhile_eq_nil_iff.mpr hb
  have hdigit : c.isDigit = false := by
    simp only [Char.isLower, Char.isDigit, Bool.and_eq_true, decide_eq_true_eq, Bool.and_eq_false_iff,
      decide_eq_false_iff_not, UInt32.le_iff_toNat_le] at hc ⊢
    have h9 : '9'.val.toNat = 57 := rfl
    have ha : 'a'.val.toNat = 97 := rfl
    omega
  have hs : Lexeme.Starts (c :: (cs ++ ds)) _ := .word hdigit hc
  rw [hall.1, hall.2, htake, hdrop, List.nil_append] at hs
  rw [String.toList_ofList, List.cons_append,
    Tokens.plain_of_first? (Lexeme.first?_eq_some_iff.mpr hs)]
  simp only [Lexeme.read]
  cases Keyword.ofWord? (String.ofList (c :: cs)) <;> simp

theorem spells_identifier {w : String} (hw : IsWord w) (hk : Keyword.ofWord? w = none) :
    Spells w.toList [{ kind := .identifier, text := w }] true := by
  intro rest hf
  rw [plain_word hw hf.separated, hk]
  rfl

theorem spells_keyword {w : String} {k : Keyword} (hk : Keyword.ofWord? w = some k) :
    Spells w.toList [{ kind := .literal, text := w, keyword := k }] true := by
  intro rest hf
  rw [plain_word (Keyword.isWord_of_ofWord? hk) hf.separated, hk]
  rfl

theorem splitNumber_digits {seen : Bool} (hd : ∀ c ∈ cs, c.isDigit) :
    Lexeme.splitNumber seen (cs ++ ds) =
      (cs ++ (Lexeme.splitNumber seen ds).1, (Lexeme.splitNumber seen ds).2) := by
  induction cs with
  | nil => rfl
  | cons c cs ih =>
    have hc := hd c List.mem_cons_self
    simp [Lexeme.splitNumber, hc, ih fun d h => hd d (List.mem_cons_of_mem _ h)]

/-- All of a numeral after its first digit is taken. -/
theorem splitNumber_numeral {c : Char} (h : Decimal.IsNumeral (c :: cs)) (hf : Follows word ds) :
    c.isDigit ∧ Lexeme.splitNumber false (cs ++ ds) = (cs, ds) := by
  have hstop (seen : Bool) : Lexeme.splitNumber seen ds = ([], ds) := by
    have hhead : ∀ d ∈ ds.head?, d.isDigit = false ∧ d ≠ '.' :=
      fun d hd => ⟨(hf.head d hd).1, (hf.head d hd).2.1⟩
    exact Lexeme.splitNumber_append_of_head seen [] ds hhead
  generalize hn : c :: cs = numeral at h
  cases h with
  | whole _ hd =>
    subst hn
    refine ⟨hd c List.mem_cons_self, ?_⟩
    rw [splitNumber_digits fun d h => hd d (List.mem_cons_of_mem _ h), hstop]
    simp
  | @point whole fraction hne hd hfr =>
    obtain ⟨c', whole, rfl⟩ := List.exists_cons_of_ne_nil hne
    obtain ⟨rfl, rfl⟩ : c = c' ∧ cs = whole ++ '.' :: fraction := by simpa using hn
    refine ⟨hd c List.mem_cons_self, ?_⟩
    have hpoint : Lexeme.splitNumber false ('.' :: (fraction ++ ds)) = ('.' :: fraction, ds) := by
      have hp : '.'.isDigit = false := rfl
      simp [Lexeme.splitNumber, hp, splitNumber_digits hfr, hstop]
    rw [List.append_assoc, List.cons_append,
      splitNumber_digits fun d h => hd d (List.mem_cons_of_mem _ h), hpoint]

/-- A numeral is scanned as the number that it stands for, unless that is out of range. -/
theorem spells_numeral (h : Decimal.IsNumeral cs) (hi : (Decimal.ofDigits cs).toFloat.isInf = false) :
    Spells cs [{ kind := .number, number := (Decimal.ofDigits cs).toFloat }] false := by
  intro rest hf
  cases cs with
  | nil => exact absurd rfl h.ne_nil
  | cons c cs =>
    obtain ⟨hc, hsplit⟩ := splitNumber_numeral h hf
    have hs : Lexeme.Starts (c :: (cs ++ rest)) _ := .number hc
    have hparen : rest.head? ≠ some '(' := fun hr => (hf.head '(' hr).2.2.1 rfl
    rw [hsplit] at hs
    rw [List.cons_append, Tokens.plain_of_first? (Lexeme.first?_eq_some_iff.mpr hs)]
    simp [Lexeme.read, hparen, hi, Tokens.ofList]

theorem spells_quoted {body : List Char} (h : '"' ∉ body) :
    Spells ('"' :: (body ++ ['"'])) [Token.quoted body] false := by
  intro rest _
  have hb : ∀ c ∈ body, (c != '"') = true := by
    intro c hc
    simpa using ne_of_mem_of_not_mem hc h
  rw [List.cons_append, List.append_assoc, Lexeme.plain_quoted, List.takeWhile_append_of_pos hb,
    Lexeme.splitQuoted_append_of_not_mem h]
  simp [Lexeme.splitQuoted, Tokens.ofList]

/-! ## Quoted texts -/

/-- A character that is quoted as it is: printable ASCII, and neither a quote nor a backslash. -/
def IsPlain (c : Char) : Prop :=
  0x20 ≤ c.toNat ∧ c.toNat ≤ 0x7E ∧ c ≠ '"' ∧ c ≠ '\\'

theorem inRanges_cons {n low high : Nat} {rest : List (Nat × Nat)} (hl : low ≤ n) (hh : n ≤ high) :
    inRanges n ((low, high) :: rest) := by
  simp [inRanges, Nat.not_lt.mpr hl, hh]

theorem IsPlain.escape {c : Char} (h : IsPlain c) : Text.escape '"' c = [c] := by
  obtain ⟨hlow, hhigh, hq, hs⟩ := h
  have hp : isPrintable c := inRanges_cons hlow hhigh
  simp [Text.escape, hq, hs, hp]

theorem quote_of_isPlain {s : String} (h : ∀ c ∈ s.toList, IsPlain c) :
    (quote s).toList = '"' :: (s.toList ++ ['"']) := by
  have hall : s.toList.flatMap (Text.escape '"') = s.toList := by
    generalize s.toList = cs at h
    induction cs with
    | nil => rfl
    | cons c cs ih =>
      rw [List.flatMap_cons, (h c List.mem_cons_self).escape,
        ih fun d hd => h d (List.mem_cons_of_mem _ hd)]
      rfl
  rw [quote, String.toList_ofList, hall]

end Text

end Scriptlet
