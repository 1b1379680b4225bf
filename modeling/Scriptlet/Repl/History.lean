import Scriptlet.Repl.Lines
import Scriptlet.Text.Utf8

/-!
# History

What was entered in earlier sessions, oldest first, one entry per line of a file. Only the latest
entries are kept.

## Main definitions

* `History.ofBytes`: the entries of a file
* `History.add`: one more entry
* `History.toBytes`: the text of the file
-/

namespace Scriptlet

/-- Entries, oldest first. -/
abbrev History := List (List UInt8)

namespace History

/-- How many entries are kept. -/
def limit : Nat := 1000

/-- The latest entries. -/
def latest (h : History) : History := h.drop (h.length - limit)

theorem length_latest_le (h : History) : (latest h).length ≤ limit := by
  simp only [latest, List.length_drop]
  omega

/-- The entries of a file, up to a line that is too long or no text. -/
def ofBytes (bytes : List UInt8) : History :=
  let good (p : Repl.Piece) : Bool := !p.goesOn && Text.isUtf8 p.bytes
  latest (((Repl.pieces bytes).takeWhile good).map Repl.Piece.bytes)

/-- One more entry, unless it is the same as the last one. -/
def add (h : History) (entry : List UInt8) : History :=
  if h.getLast? = some entry then h else latest (h ++ [entry])

/-- The text of the file. -/
def toBytes (h : History) : List UInt8 := h.flatMap (· ++ [10])

end History

end Scriptlet
