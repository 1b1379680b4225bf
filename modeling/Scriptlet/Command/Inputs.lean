import Scriptlet.Command

/-!
# Inputs of a command

Which files a command looks at depends on what it finds in them: a manifest names scripts, and a
lockfile names commits. With all the files that are named by those that are already known, one after
the other, a command is told everything that it may ask for.

## Main definitions

* `Command.inputs`: the paths that a command may look at, as far as the known files tell
-/

namespace Scriptlet.Command

/-- Where a manifest may be for a path. -/
def manifestPaths (w : World) (start : String) : List String :=
  let segments := Path.cleanSegments (Path.absolute w.cwd start)
  (List.range (segments.length + 1)).map fun n =>
    Path.join (Path.ofSegments true (segments.take n)) Manifest.fileName

/-- The scripts and the lockfile of a manifest. -/
def manifestInputs (m : Manifest) : List String :=
  m.lockfilePath :: m.mainPath :: (m.preludes.filter (!·.isGit)).map fun p => m.resolve p.path

/-- The scripts that a lockfile names, in the cache. -/
def cacheInputs (w : World) (m : Manifest) : List String :=
  match w.home, w.lockfile m.lockfilePath with
  | .ok home, .ok l => (l.sources.filterMap id).map (Cache.sourcePath home)
  | _, _ => []

/-- The file that keeps the history, and the directory that it is in. -/
def homeInputs (w : World) : List String :=
  match w.home with
  | .ok home => [home, Path.join home "history"]
  | .error _ => []

/-- The paths that a command may look at, as far as the known files tell. -/
def inputs (w : World) (arguments : List String) : List String :=
  let starts := "." :: arguments
  let known := starts.filterMap fun start => (w.manifestAbove start).toOption
  starts ++ starts.flatMap (manifestPaths w) ++ known.flatMap manifestInputs ++
    known.flatMap (cacheInputs w) ++ homeInputs w

end Scriptlet.Command
