import Scriptlet.Token.Scanner

/-!
# A scanner that stops

The scanner once more, as a machine with two registers where `Scanner` has one: a flag that says that
it has stopped, and the error that it stopped with. Who asks for a token looks at the flag; who
reports a failure looks at the error.

## Main definitions

* `Lexer.next`: the next token of a text, one call at a time
* `Lexer.after`: the lexer after some calls
* `Scanner.lexer`: a scanner with its failure in both registers
-/

namespace Scriptlet

/-- What is left of a text, the line reached in it, whether reading has stopped, and why. -/
structure Lexer where
  rest : List Char
  line : Nat := 1
  done : Bool := false
  error : Option ScanError := none

namespace Lexer

def ofText (text : String) : Lexer := { rest := text.toList }

/-- The lexer stops for good. -/
def fail (s : Lexer) (problem : ScanProblem) : Option Token × Lexer :=
  (none, { s with done := true, error := some ⟨problem, s.line⟩ })

/-- The next token. The end of the text is a token, which comes again and again. -/
def next (s : Lexer) : Option Token × Lexer :=
  if s.done then (none, s)
  else match Lexeme.first? s.rest with
    | none => (some (Token.endOfInput s.line), s)
    | some l =>
      match l.read with
      | .error p => s.fail p
      | .ok t =>
        (some { t with line := s.line },
          { s with rest := l.remainder, line := s.line + l.span.count '\n' })

/-- The lexer after `n` calls. -/
def after (s : Lexer) : (n : Nat) → Lexer
  | 0 => s
  | n + 1 => s.next.2.after n

end Lexer

/-- The lexer that has stopped if the scanner has failed, with that failure. -/
def Scanner.lexer (s : Scanner) : Lexer := ⟨s.rest, s.line, s.failure.isSome, s.failure⟩

end Scriptlet
