/-!
# Paths

Paths are texts whose segments are separated by slashes. A clean path has no empty segments, no
segment `.`, and a segment `..` only at the start of a relative path.

## Main definitions

* `Path.clean`: the shortest path that names the same place
* `Path.join`, `Path.dir`: a path below another one, and the path above one
* `Path.absolute`: a path seen from a directory
-/

namespace Scriptlet.Path

/-- The segments of a path, split at every slash. -/
def splitSegments : List Char → List (List Char)
  | [] => [[]]
  | c :: cs =>
    if c = '/' then [] :: splitSegments cs
    else match splitSegments cs with
      | [] => [[c]]
      | s :: ss => (c :: s) :: ss

def segments (path : String) : List String :=
  (splitSegments path.toList).map String.ofList

def isAbsolute (path : String) : Bool := path.toList.head? = some '/'

/-- Takes one more segment onto the segments so far, innermost first. -/
def enter (rooted : Bool) (above : List String) (segment : String) : List String :=
  if segment = "" ∨ segment = "." then above
  else if segment = ".." then
    match above with
    | [] => if rooted then [] else [".."]
    | s :: rest => if s = ".." then ".." :: above else rest
  else segment :: above

/-- The segments of a clean path. -/
def cleanSegments (path : String) : List String :=
  ((segments path).foldl (enter (isAbsolute path)) []).reverse

/-- The path with the given segments. -/
def ofSegments (rooted : Bool) (ss : List String) : String :=
  if rooted then "/" ++ "/".intercalate ss
  else if ss.isEmpty then "." else "/".intercalate ss

def clean (path : String) : String := ofSegments (isAbsolute path) (cleanSegments path)

/-- Joins two paths; an empty one adds nothing. -/
def join (a b : String) : String :=
  if a = "" ∧ b = "" then ""
  else if a = "" then clean b
  else if b = "" then clean a
  else clean (a ++ "/" ++ b)

/-- The path as seen from the directory `cwd`. -/
def absolute (cwd path : String) : String :=
  if isAbsolute path then clean path else join cwd path

/-- All but the last segment. -/
def dir (path : String) : String :=
  let cs := path.toList
  let front := (cs.reverse.dropWhile (· != '/')).reverse
  clean (String.ofList front)

end Scriptlet.Path
