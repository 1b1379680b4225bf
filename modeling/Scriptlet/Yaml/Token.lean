import Scriptlet.Text.Hex
import Scriptlet.Yaml.Stream

/-!
# Tokens of YAML

A file is cut into tokens: indicators, scalars, and the starts and ends of blocks, which come from
indentation. What turns out to be a key only at its colon gets its key token, and the start of its
block, put in front of it afterwards.

## Main definitions

* `Yaml.Token`: a token and its line
* `Yaml.Lexer.tokens`: the tokens of a text, up to the first mistake if there is one
-/

namespace Scriptlet.Yaml

/-- How a scalar is written. -/
inductive Style where
  | plain
  | singleQuoted
  | doubleQuoted
  | literal
  | folded
  deriving DecidableEq, Repr

inductive Token.Kind where
  | streamEnd
  | documentStart
  | documentEnd
  | version (major minor : Nat)
  | tagDirective (handle expansion : List Char)
  | blockSequenceStart
  | blockMappingStart
  | blockEnd
  | flowSequenceStart
  | flowSequenceEnd
  | flowMappingStart
  | flowMappingEnd
  | blockEntry
  | flowEntry
  | key
  | value
  | aliased (name : List Char)
  | anchor (name : List Char)
  | tag (handle suffix : List Char)
  | scalar (text : List Char) (style : Style)
  deriving DecidableEq, Repr

structure Token where
  kind : Token.Kind
  /-- The line, counted from 1. -/
  line : Nat
  deriving DecidableEq, Repr

namespace Lexer

/-- What is left of a text, and the place reached in it. -/
structure Cursor where
  rest : List Char
  index : Nat := 0
  line : Nat := 1
  column : Nat := 0

namespace Cursor

def peek? (c : Cursor) : Option Char := c.rest.head?

/-- The cursor after `n` characters of a line. -/
def skip (c : Cursor) (n : Nat) : Cursor :=
  { c with rest := c.rest.drop n, index := c.index + n, column := c.column + n }

/-- The characters of a class at the cursor, and the cursor after them. -/
def takeWhile (c : Cursor) (p : Char → Bool) : List Char × Cursor :=
  let taken := c.rest.takeWhile p
  (taken, c.skip taken.length)

def skipWhile (c : Cursor) (p : Char → Bool) : Cursor := (c.takeWhile p).2

/-- The line break at the cursor as it reads, and the cursor after it. -/
def lineBreak? (c : Cursor) : Option (List Char × Cursor) :=
  (Yaml.lineBreak? c.rest).map fun (text, n) =>
    (text, { rest := c.rest.drop n, index := c.index + n, line := c.line + 1, column := 0 })

/-- Whether the text ends, or a blank or a line break stands, `n` characters on. -/
def blankAt (c : Cursor) (n : Nat) : Bool :=
  match c.rest[n]? with
  | none => true
  | some ch => isBlank ch || isBreak ch

def atBlank (c : Cursor) : Bool := c.peek?.any isBlank
def atBreak (c : Cursor) : Bool := c.peek?.any isBreak
def atEnd (c : Cursor) : Bool := c.rest.isEmpty
def atBreakOrEnd (c : Cursor) : Bool := c.atBreak || c.atEnd

/-- Whether a line that starts here starts with three of a character and ends or goes on blank. -/
def atIndicator (c : Cursor) (ch : Char) : Bool :=
  c.column == 0 && c.rest.take 3 == [ch, ch, ch] && c.blankAt 3

/-- Whether a document ends or starts at the cursor. -/
def atDocumentIndicator (c : Cursor) : Bool := c.atIndicator '-' || c.atIndicator '.'

end Cursor

/-- A token that may turn out to be a key. -/
structure KeyCandidate where
  /-- The indentation demands that it is a key. -/
  required : Bool
  /-- The number of tokens in front of it. -/
  position : Nat
  line : Nat
  index : Nat
  column : Nat

structure State where
  cursor : Cursor
  tokens : Array Token := #[]
  /-- How many brackets are open. -/
  flow : Nat := 0
  /-- The column of the innermost block, or -1 outside of all blocks. -/
  indent : Int := -1
  outerIndents : List Int := []
  /-- Whether a key without a question mark may start here. -/
  keyAllowed : Bool := true
  /-- The candidate of each open bracket, innermost first, and of the block around them. -/
  candidates : List (Option KeyCandidate) := [none]

abbrev Result := Except SyntaxError State

namespace State

def push (s : State) (kind : Token.Kind) (line : Nat) : State :=
  { s with tokens := s.tokens.push ⟨kind, line⟩ }

/-- Puts a token in front of the one at `position`. -/
def insert (s : State) (position : Nat) (kind : Token.Kind) (line : Nat) : State :=
  { s with tokens := s.tokens.insertIdxIfInBounds position ⟨kind, line⟩ }

/-- Ends the blocks that are indented deeper than `column`. -/
def unroll (s : State) (column : Int) : State :=
  if s.flow > 0 then s else go s s.outerIndents
where
  go (s : State) : List Int → State
    | [] => s
    | outer :: rest =>
      if column < s.indent then
        go { s.push .blockEnd s.cursor.line with indent := outer, outerIndents := rest } rest
      else s

/-- Starts a block at `column`, unless one is open there; its token goes to `position`. -/
def roll (s : State) (column : Nat) (position : Option Nat) (kind : Token.Kind) (line : Nat) : State :=
  if s.flow == 0 && s.indent < column then
    let s := { s with outerIndents := s.indent :: s.outerIndents, indent := column }
    match position with
    | some p => s.insert p kind line
    | none => s.push kind line
  else s

/-- Gives up the candidate of the innermost bracket. -/
def dropCandidate (s : State) : Result :=
  match s.candidates with
  | some k :: rest =>
    if k.required then .error ⟨"could not find expected ':'"⟩
    else .ok { s with candidates := none :: rest }
  | _ => .ok s

/-- Makes the next token a candidate, if a key may start here. -/
def saveCandidate (s : State) : Result :=
  if s.keyAllowed then do
    let s ← s.dropCandidate
    let c := s.cursor
    let k : KeyCandidate :=
      { required := s.flow == 0 && s.indent == c.column, position := s.tokens.size, line := c.line,
        index := c.index, column := c.column }
    return { s with candidates := some k :: s.candidates.drop 1 }
  else .ok s

/-- The candidate of the innermost bracket, if it is still near enough to be a key. -/
def candidate? (s : State) : Except SyntaxError (Option KeyCandidate) :=
  match s.candidates with
  | some k :: _ =>
    if k.line < s.cursor.line || k.index + 1024 < s.cursor.index then
      if k.required then .error ⟨"could not find expected ':'"⟩ else .ok none
    else .ok (some k)
  | _ => .ok none

/-- Skips an indicator of `n` characters and adds its token. -/
def indicator (s : State) (n : Nat) (kind : Token.Kind) : State :=
  { s.push kind s.cursor.line with cursor := s.cursor.skip n }

end State

/-- Skips a comment, and the comments on the lines after it. -/
def skipComments (c : Cursor) : (fuel : Nat) → Cursor
  | 0 => c
  | fuel + 1 =>
    let c := c.skipWhile (!isBreak ·)
    let after := lookAhead c (fuel + 1)
    if after.peek? == some '#' then skipComments after fuel else c
where
  /-- The next character that is neither blank nor a line break. -/
  lookAhead (c : Cursor) : Nat → Cursor
    | 0 => c
    | fuel + 1 =>
      let c := c.skipWhile isBlank
      match c.lineBreak? with
      | some (_, c) => lookAhead c fuel
      | none => c

/-- Skips what stands between two tokens: blanks, comments and line breaks. -/
def skipBetween (s : State) : (fuel : Nat) → State
  | 0 => s
  | fuel + 1 =>
    let c := if s.cursor.column == 0 && s.cursor.peek? == some '\uFEFF' then s.cursor.skip 1
      else s.cursor
    let tabs := s.flow > 0 || !s.keyAllowed
    let c := c.skipWhile fun ch => ch == ' ' || (tabs && ch == '\t')
    let c := if c.peek? == some '#' then skipComments c (fuel + 1) else c
    match c.lineBreak? with
    | some (_, c) =>
      skipBetween { s with cursor := c, keyAllowed := if s.flow == 0 then true else s.keyAllowed } fuel
    | none => { s with cursor := c }

/-- Characters of the names of anchors and of tag handles. -/
def isNameChar (c : Char) : Bool := c.isAlphanum || c == '_' || c == '-'

/-- Characters of tags. -/
def isTagChar (c : Char) : Bool :=
  isNameChar c || ";/?:@&=+$,.!~*'()[]%".toList.contains c

/-- A tag with its escapes undone. -/
def unescapeTag : List Char → Option (List UInt8)
  | [] => some []
  | '%' :: a :: b :: rest => do
    let x ← Text.hexValue? a
    let y ← Text.hexValue? b
    (unescapeTag rest).map (UInt8.ofNat (x * 16 + y) :: ·)
  | '%' :: _ => none
  | c :: rest => (unescapeTag rest).map ((String.singleton c).toUTF8.data.toList ++ ·)

/-- The text of a tag with its escapes undone. -/
def tagText (cs : List Char) : Except SyntaxError (List Char) :=
  match unescapeTag cs with
  | some bytes => if Text.isUtf8 bytes then .ok (Text.decode bytes) else .error ⟨"invalid tag"⟩
  | none => .error ⟨"did not find URI escaped octet"⟩

/-- An anchor or an alias. -/
def scanAnchor (s : State) (kind : List Char → Token.Kind) : Result :=
  let (name, c) := (s.cursor.skip 1).takeWhile isNameChar
  let ended := c.blankAt 0 || c.peek?.any fun ch => "?:,]\x7d%@`".toList.contains ch
  if name.isEmpty || !ended then .error ⟨"did not find expected alphabetic or numeric character"⟩
  else .ok { s.push (kind name) s.cursor.line with cursor := c }

/-- A tag. -/
def scanTag (s : State) : Result := do
  let start := s.cursor
  if start.rest.take 2 == ['!', '<'] then
    let (uri, c) := (start.skip 2).takeWhile isTagChar
    if uri.isEmpty || c.peek? != some '>' then .error ⟨"did not find the expected '>'"⟩
    else finish (.tag [] (← tagText uri)) (c.skip 1)
  else
    let (name, c) := (start.skip 1).takeWhile isNameChar
    if c.peek? == some '!' then
      let (uri, c) := (c.skip 1).takeWhile isTagChar
      if uri.isEmpty then .error ⟨"did not find expected tag URI"⟩
      else finish (.tag ('!' :: name ++ ['!']) (← tagText uri)) c
    else
      let (uri, c) := c.takeWhile isTagChar
      let suffix ← tagText (name ++ uri)
      finish (if suffix.isEmpty then .tag [] ['!'] else .tag ['!'] suffix) c
where
  finish (kind : Token.Kind) (c : Cursor) : Result :=
    if c.blankAt 0 then .ok { s.push kind s.cursor.line with cursor := c }
    else .error ⟨"did not find expected whitespace or line break"⟩

/-- A directive. -/
def scanDirective (s : State) : Result := do
  let (name, c) := (s.cursor.skip 1).takeWhile isNameChar
  let c := c.skipWhile isBlank
  let (kind, c) ← match String.ofList name with
    | "YAML" =>
      let (major, c) := c.takeWhile Char.isDigit
      let (minor, c') := (c.skip 1).takeWhile Char.isDigit
      if major.isEmpty || minor.isEmpty || c.peek? != some '.' then
        .error ⟨"did not find expected version number"⟩
      else .ok (Token.Kind.version (number major) (number minor), c')
    | "TAG" =>
      let (handle, c) := c.takeWhile fun ch => isNameChar ch || ch == '!'
      let c := c.skipWhile isBlank
      let (expansion, c) := c.takeWhile isTagChar
      if expansion.isEmpty || handle.head? != some '!' || handle.getLast? != some '!' then
        .error ⟨"did not find expected tag directive"⟩
      else .ok (.tagDirective handle (← tagText expansion), c)
    | _ => .error ⟨"found unknown directive name"⟩
  let c := c.skipWhile isBlank
  let c := if c.peek? == some '#' then c.skipWhile (!isBreak ·) else c
  if !c.atBreakOrEnd then .error ⟨"did not find expected comment or line break"⟩
  else
    let c := (c.lineBreak?.map (·.2)).getD c
    return { s.push kind s.cursor.line with cursor := c }
where
  number (ds : List Char) : Nat := ds.foldl (fun n d => n * 10 + (d.toNat - 48)) 0

/-- Line breaks folded: one becomes a space, and of several the first goes. -/
def fold (first : List Char) (others : List Char) : List Char :=
  if first == ['\n'] then (if others.isEmpty then [' '] else others) else first ++ others

/--
The blanks and line breaks at the cursor: the blanks of the first line if there is no line break,
the first line break, the others, and the cursor after them.
-/
def scanGap (c : Cursor) (isError : Cursor → Bool) :
    (fuel : Nat) → Except SyntaxError (List Char × Option (List Char × List Char) × Cursor)
  | fuel =>
    let (blanks, c) := c.takeWhile isBlank
    match c.lineBreak? with
    | none => .ok (blanks, none, c)
    | some (first, c) => (others c fuel).map fun (more, c) => ([], some (first, more), c)
where
  others (c : Cursor) : Nat → Except SyntaxError (List Char × Cursor)
    | 0 => .ok ([], c)
    | fuel + 1 =>
      let c := c.skipWhile (· == ' ')
      if c.peek? == some '\t' && isError c then
        .error ⟨"found a tab character that violates indentation"⟩
      else
        let c := c.skipWhile isBlank
        match c.lineBreak? with
        | none => .ok ([], c)
        | some (text, c) => (others c fuel).map fun (more, c) => (text ++ more, c)

/-- Whether a plain scalar ends at the cursor, or a gap in it starts there. -/
def endsWord (flow : Nat) (c : Cursor) : Bool :=
  match c.peek? with
  | none => true
  | some ch =>
    isBlank ch || isBreak ch || (ch == ':' && c.blankAt 1) ||
      (flow > 0 && (ch == ',' || ch == '?' || ch == '[' || ch == ']' || ch == '\x7b' || ch == '\x7d'))

/-- The characters up to the end of a word of a plain scalar, of which at most `fuel` are taken. -/
def takeWord (flow : Nat) (c : Cursor) : (fuel : Nat) → List Char × Cursor
  | 0 => ([], c)
  | fuel + 1 =>
    match c.rest with
    | [] => ([], c)
    | ch :: _ =>
      if endsWord flow c then ([], c)
      else
        let (word, c) := takeWord flow (c.skip 1) fuel
        (ch :: word, c)

/--
A plain scalar's text in reverse, whether a line break follows it, and the cursor after it. The text
so far is `text`, and `gap` is what stands in front of its next word, which comes from a line break
if `broken` holds.
-/
def plainText (flow : Nat) (indent : Int) (text gap : List Char) (broken : Bool) (c : Cursor) :
    (fuel : Nat) → Except SyntaxError (List Char × Bool × Cursor)
  | 0 => .ok (text, broken, c)
  | fuel + 1 =>
    if c.atDocumentIndicator || c.peek? == some '#' then .ok (text, broken, c)
    else match takeWord flow c (fuel + 1) with
      | ([], c) => .ok (text, broken, c)
      | (word, c) => do
        let text := word.reverse ++ gap.reverse ++ text
        if !(c.atBlank || c.atBreak) then .ok (text, false, c)
        else
          let (blanks, breaks, c) ← scanGap c (fun c => (c.column : Int) < indent) (fuel + 1)
          match breaks with
          | none => plainText flow indent text blanks false c fuel
          | some (first, others) =>
            if flow == 0 && (c.column : Int) < indent then .ok (text, true, c)
            else plainText flow indent text (fold first others) true c fuel

/-- A plain scalar. -/
def scanPlain (s : State) : Result := do
  let (text, broken, c) ← plainText s.flow (s.indent + 1) [] [] false s.cursor
    (s.cursor.rest.length + 1)
  return { s.push (.scalar text.reverse .plain) s.cursor.line with
    cursor := c, keyAllowed := if broken then true else s.keyAllowed }

/-- The character of an escape letter that needs no digits. -/
def escapeLetter? : Char → Option Char
  | '0' => some '\x00'
  | 'a' => some '\x07'
  | 'b' => some '\x08'
  | 't' | '\t' => some '\t'
  | 'n' => some '\n'
  | 'v' => some '\x0b'
  | 'f' => some '\x0c'
  | 'r' => some '\r'
  | 'e' => some '\x1b'
  | ' ' => some ' '
  | '"' => some '"'
  | '\'' => some '\''
  | '\\' => some '\\'
  | 'N' => some '\u0085'
  | '_' => some '\u00a0'
  | 'L' => some '\u2028'
  | 'P' => some '\u2029'
  | _ => none

/-- The number of digits that an escape letter takes. -/
def escapeWidth? : Char → Option Nat
  | 'x' => some 2
  | 'u' => some 4
  | 'U' => some 8
  | _ => none

/-- The character of an escape, after its backslash, and its length. -/
def escape (cs : List Char) : Except SyntaxError (Char × Nat) :=
  match cs with
  | [] => .error ⟨"found unexpected end of stream"⟩
  | c :: rest =>
    match escapeLetter? c, escapeWidth? c with
    | some e, _ => .ok (e, 1)
    | none, some width =>
      match (rest.take width).mapM Text.hexValue? with
      | none => .error ⟨"did not find expected hexdecimal number"⟩
      | some ds =>
        let n := ds.foldl (fun n d => n * 16 + d) 0
        if ds.length < width then .error ⟨"did not find expected hexdecimal number"⟩
        else if (0xD800 ≤ n && n ≤ 0xDFFF) || n > 0x10FFFF then
          .error ⟨"found invalid Unicode character escape code"⟩
        else .ok (Char.ofNat n, width + 1)
    | none, none => .error ⟨"found unknown escape character"⟩

/-- A quoted scalar's text, from `text` in reverse, and the cursor after the closing quote. -/
def quotedText (double : Bool) (text : List Char) (c : Cursor) :
    (fuel : Nat) → Except SyntaxError (List Char × Cursor)
  | 0 => .error ⟨"found unexpected end of stream"⟩
  | fuel + 1 =>
    if c.atDocumentIndicator then .error ⟨"found unexpected document indicator"⟩
    else match c.rest with
      | [] => .error ⟨"found unexpected end of stream"⟩
      | '\'' :: '\'' :: _ => if double then quotedText double ('\'' :: text) (c.skip 1) fuel
        else quotedText double ('\'' :: text) (c.skip 2) fuel
      | ch :: rest =>
        if ch == (if double then '"' else '\'') then .ok (text, c.skip 1)
        else if double && ch == '\\' then
          match (c.skip 1).lineBreak? with
          | some (_, after) => do
            -- An escaped line break goes, with the blanks of the next lines; empty lines stay.
            let (more, after) ← scanGap.others (fun _ => false) after (fuel + 1)
            quotedText double (more.reverse ++ text) after fuel
          | none => do
            let (e, n) ← escape rest
            quotedText double (e :: text) (c.skip (n + 1)) fuel
        else if isBlank ch || isBreak ch then do
          let (blanks, breaks, c) ← scanGap c (fun _ => false) (fuel + 1)
          let gap := match breaks with
            | none => blanks
            | some (first, others) => fold first others
          quotedText double (gap.reverse ++ text) c fuel
        else quotedText double (ch :: text) (c.skip 1) fuel

/-- A quoted scalar. -/
def scanQuoted (s : State) (double : Bool) : Result := do
  let (text, c) ← quotedText double [] (s.cursor.skip 1) (s.cursor.rest.length + 1)
  let style : Style := if double then .doubleQuoted else .singleQuoted
  return { s.push (.scalar text.reverse style) s.cursor.line with cursor := c }

/-- The empty lines of a block scalar, the greatest indentation seen in them, and the cursor. -/
def blockGap (indent : Nat) (c : Cursor) (widest : Nat) :
    (fuel : Nat) → Except SyntaxError (List Char × Nat × Cursor)
  | 0 => .ok ([], widest, c)
  | fuel + 1 =>
    let spaces := (c.rest.takeWhile (· == ' ')).length
    let c := c.skip (if indent == 0 then spaces else min spaces (indent - c.column))
    let widest := max widest c.column
    if (indent == 0 || c.column < indent) && c.peek? == some '\t' then
      .error ⟨"found a tab character where an indentation space is expected"⟩
    else match c.lineBreak? with
      | none => .ok ([], widest, c)
      | some (text, c) => (blockGap indent c widest fuel).map fun (more, w, c) => (text ++ more, w, c)

/--
The lines of a block scalar from `text` in reverse. `pending` is the break of the line before, and
`gap` the empty lines after it.
-/
def blockLines (literal : Bool) (indent : Nat) (text pending gap : List Char) (blankBefore : Bool)
    (c : Cursor) : (fuel : Nat) → Except SyntaxError (List Char × List Char × List Char × Cursor)
  | 0 => .ok (text, pending, gap, c)
  | fuel + 1 =>
    if c.column != indent || c.atEnd then .ok (text, pending, gap, c)
    else do
      let blank := c.atBlank
      let joint :=
        if !literal && !blankBefore && !blank && pending == ['\n'] then
          (if gap.isEmpty then [' '] else [])
        else pending
      let (line, c) := c.takeWhile (!isBreak ·)
      let text := line.reverse ++ gap.reverse ++ joint.reverse ++ text
      let (pending, c) := c.lineBreak?.getD ([], c)
      let (gap, _, c) ← blockGap indent c 0 (fuel + 1)
      blockLines literal indent text pending gap blank c fuel

/-- A literal or folded block scalar. -/
def scanBlockScalar (s : State) (literal : Bool) : Result := do
  let fuel := s.cursor.rest.length + 1
  let (header, c) := (s.cursor.skip 1).takeWhile fun ch => ch == '+' || ch == '-' || ch.isDigit
  let (chomp, digit) ← match header with
    | [] => .ok (none, none)
    | [a] => if a.isDigit then .ok (none, some a) else .ok (some a, none)
    | [a, b] =>
      if a.isDigit && !b.isDigit then .ok (some b, some a)
      else if !a.isDigit && b.isDigit then .ok (some a, some b)
      else .error ⟨"did not find expected comment or line break"⟩
    | _ => .error ⟨"did not find expected comment or line break"⟩
  if digit == some '0' then .error ⟨"found an indentation indicator equal to 0"⟩
  let c := c.skipWhile isBlank
  let c := if c.peek? == some '#' then c.skipWhile (!isBreak ·) else c
  if !c.atBreakOrEnd then .error ⟨"did not find expected comment or line break"⟩
  let c := (c.lineBreak?.map (·.2)).getD c
  let given : Nat := match digit with
    | none => 0
    | some d => (max s.indent 0).toNat + (d.toNat - 48)
  let (gap, widest, c) ← blockGap given c 0 fuel
  let indent := if given == 0 then max (max widest (s.indent + 1).toNat) 1 else given
  let (text, pending, gap, c) ← blockLines literal indent [] [] gap false c fuel
  let text := text.reverse ++ (if chomp == some '-' then [] else pending) ++
    (if chomp == some '+' then gap else [])
  let style : Style := if literal then .literal else .folded
  return { s.push (.scalar text style) s.cursor.line with cursor := c }

/-- The colon after a key. -/
def scanValue (s : State) : Result := do
  match ← s.candidate? with
  | some k =>
    let s := s.insert k.position .key k.line
    let s := s.roll k.column (some k.position) .blockMappingStart k.line
    let s := { s with candidates := none :: s.candidates.drop 1, keyAllowed := false }
    return s.indicator 1 .value
  | none =>
    if s.flow == 0 && !s.keyAllowed then
      .error ⟨"mapping values are not allowed in this context"⟩
    else
      let s := s.roll s.cursor.column none .blockMappingStart s.cursor.line
      let s := { s with candidates := none :: s.candidates.drop 1, keyAllowed := s.flow == 0 }
      return s.indicator 1 .value

/-- Whether a plain scalar starts at the cursor. -/
def startsPlain (s : State) : Bool :=
  match s.cursor.peek? with
  | none => false
  | some c =>
    !(isBlank c || isBreak c || "-?:,[]\x7b\x7d#&*!|>'\"%@`".toList.contains c) ||
      (c == '-' && !(s.cursor.rest[1]?.any isBlank)) ||
      (s.flow == 0 && (c == '?' || c == ':') && !s.cursor.blankAt 1)

/-- An indicator that a key may not span, such as the start of a document. -/
def scanMark (s : State) (kind : Token.Kind) : Result := do
  let s ← (s.unroll (-1)).dropCandidate
  return { s with keyAllowed := false }.indicator 3 kind

/-- An opening bracket. -/
def scanOpen (s : State) (kind : Token.Kind) : Result := do
  let s ← s.saveCandidate
  let s := { s with candidates := none :: s.candidates, flow := s.flow + 1, keyAllowed := true }
  return s.indicator 1 kind

/-- A closing bracket. -/
def scanClose (s : State) (kind : Token.Kind) : Result := do
  let s ← s.dropCandidate
  let s := if s.flow > 0 then { s with flow := s.flow - 1, candidates := s.candidates.drop 1 } else s
  return { s with keyAllowed := false }.indicator 1 kind

/-- A dash or question mark at the start of an entry of a block. -/
def scanEntry (s : State) (start kind : Token.Kind) (after : Bool) : Result := do
  if s.flow == 0 && !s.keyAllowed then .error ⟨"block entries are not allowed in this context"⟩
  let s ← (s.roll s.cursor.column none start s.cursor.line).dropCandidate
  return { s with keyAllowed := after }.indicator 1 kind

/-- The next token, at a cursor that stands on one; the end of the text is a token too. -/
def scanToken (s : State) : Result := do
  let s := s.unroll s.cursor.column
  let c := s.cursor
  let plainly (scan : State → Result) : Result := do
    let s ← s.saveCandidate
    scan { s with keyAllowed := false }
  match c.peek? with
  | none => do
    let s ← (s.unroll (-1)).dropCandidate
    return { s.push .streamEnd c.line with keyAllowed := false }
  | some ch =>
    if c.column == 0 && ch == '%' then do
      let s ← (s.unroll (-1)).dropCandidate
      scanDirective { s with keyAllowed := false }
    else if c.atIndicator '-' then scanMark s .documentStart
    else if c.atIndicator '.' then scanMark s .documentEnd
    else if ch == '[' then scanOpen s .flowSequenceStart
    else if ch == '\x7b' then scanOpen s .flowMappingStart
    else if ch == ']' then scanClose s .flowSequenceEnd
    else if ch == '\x7d' then scanClose s .flowMappingEnd
    else if ch == ',' then do
      let s ← s.dropCandidate
      return { s with keyAllowed := true }.indicator 1 .flowEntry
    else if ch == '-' && c.blankAt 1 then scanEntry s .blockSequenceStart .blockEntry true
    else if ch == '?' && (s.flow > 0 || c.blankAt 1) then
      scanEntry s .blockMappingStart .key (s.flow == 0)
    else if ch == ':' && (s.flow > 0 || c.blankAt 1) then scanValue s
    else if ch == '*' then plainly (scanAnchor · .aliased)
    else if ch == '&' then plainly (scanAnchor · .anchor)
    else if ch == '!' then plainly scanTag
    else if (ch == '|' || ch == '>') && s.flow == 0 then do
      let s ← s.dropCandidate
      scanBlockScalar { s with keyAllowed := true } (ch == '|')
    else if ch == '\'' then plainly (scanQuoted · false)
    else if ch == '"' then plainly (scanQuoted · true)
    else if startsPlain s then plainly scanPlain
    else .error ⟨"found character that cannot start any token"⟩

/-- The tokens up to the end of the text, or up to a mistake. -/
def scanAll (s : State) : (fuel : Nat) → Array Token × Option SyntaxError
  | 0 => (s.tokens, none)
  | fuel + 1 =>
    let s := skipBetween s (s.cursor.rest.length + 1)
    match scanToken s with
    | .error e => ((s.unroll s.cursor.column).tokens, some e)
    | .ok s' =>
      if s.cursor.atEnd then (s'.tokens, none)
      else scanAll s' fuel

/-- The tokens of a text, and the mistake after them if there is one. -/
def tokens (text : List Char) : List Token × Option SyntaxError :=
  let (ts, e) := scanAll { cursor := { rest := text } } (text.length + 1)
  (ts.toList, e)

end Lexer

end Scriptlet.Yaml
