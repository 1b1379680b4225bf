/-!
# Lines of an input

An input is read line by line. Lines end with a line feed, and a carriage return before it is no part
of them. A line that is longer than the buffer is read in pieces.

## Main definitions

* `Repl.Piece`: a line, or a part of one that is too long
* `Repl.pieces`: the pieces of an input
-/

namespace Scriptlet.Repl

/-- A line, or a part of one that goes on. -/
structure Piece where
  bytes : List UInt8
  goesOn : Bool := false
  deriving DecidableEq, Repr

/-- How many bytes are read at once. -/
def bufferSize : Nat := 4096

/-- A line without the carriage return at its end. -/
def withoutReturn (line : List UInt8) : List UInt8 :=
  if line.getLast? = some 13 then line.dropLast else line

/-- How many bytes of a line that is too long are read; a carriage return is left for later. -/
def cutLength (bytes : List UInt8) : Nat :=
  if bytes[bufferSize - 1]? = some 13 then bufferSize - 1 else bufferSize

theorem cutLength_pos (bytes : List UInt8) : 0 < cutLength bytes := by
  unfold cutLength bufferSize
  split <;> decide

/-- The pieces of an input. What follows the last line feed is a line too, unless it is empty. -/
def pieces (bytes : List UInt8) : List Piece :=
  if h : bytes = [] then []
  else
    let line := bytes.takeWhile (· != 10)
    if line.length < bufferSize then
      if line.length = bytes.length then [⟨line, false⟩]
      else ⟨withoutReturn line, false⟩ :: pieces (bytes.drop (line.length + 1))
    else ⟨bytes.take (cutLength bytes), true⟩ :: pieces (bytes.drop (cutLength bytes))
termination_by bytes.length
decreasing_by
  all_goals
    have := List.length_pos_iff.2 h
    have := cutLength_pos bytes
    simp only [List.length_drop]
    omega

end Scriptlet.Repl
