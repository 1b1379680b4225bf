import Scriptlet.Flags
import Scriptlet.Manifest

/-!
# Options of a run

How scripts are run, from the flags of a command and from a manifest. A flag that is given wins over
the manifest.

## Main definitions

* `Options.parse`: the options that arguments give
* `Options.merge`: the options with what a manifest says
* `Options.config`, `Options.logger`: how to run, and how to log
-/

namespace Scriptlet

/-- How scripts are run; `given` are the names of the flags that were given. -/
structure Options where
  continueOnError : Bool := false
  maxDepth : Int := 0
  logLevel : String := "warn"
  logJson : Bool := false
  quiet : Bool := false
  given : List String := []
  deriving DecidableEq, Repr

namespace Options

def continueFlag : Flag := ⟨"continue", .switch false, "keep running after a failing statement"⟩

def logJsonFlag : Flag := ⟨"log-json", .switch false, "emit logs as JSON"⟩

/-- The flag for the level of the log, with its default. -/
def logLevelFlag (level : String) : Flag :=
  ⟨"log-level", .text level, "log level: debug, info, warn, error"⟩

def maxDepthFlag : Flag :=
  ⟨"max-depth", .number 0, "maximum expression and block nesting (0 = unbounded)"⟩

def quietFlag : Flag := ⟨"q", .switch false, "do not print statement results"⟩

/-- The flags of a run, in the order of their names. -/
def flags : List Flag :=
  [continueFlag, logJsonFlag, logLevelFlag "warn", maxDepthFlag, quietFlag]

/-- Whether a switch is on. -/
def isOn (settings : Flag.Settings) (f : Flag) : Bool := f.value settings == .switch true

/-- The number that a flag was given. -/
def numberOf (settings : Flag.Settings) (f : Flag) : Int :=
  match f.value settings with
  | .number n => n
  | _ => 0

/-- The text that a flag was given. -/
def textOf (settings : Flag.Settings) (f : Flag) : String :=
  match f.value settings with
  | .text s => s
  | _ => ""

def ofSettings (settings : Flag.Settings) : Options where
  continueOnError := isOn settings continueFlag
  maxDepth := numberOf settings maxDepthFlag
  logLevel := textOf settings (logLevelFlag "warn")
  logJson := isOn settings logJsonFlag
  quiet := isOn settings quietFlag
  given := (flags.map Flag.name).filter fun name => (settings.lookup name).isSome

/-- The options that arguments give, and the arguments after them. -/
def parse (arguments : List String) : Except FlagError (Options × List String) := do
  let (settings, rest) ← Flag.parse flags [] arguments
  return (ofSettings settings, rest)

/-- The options, where flags that were not given are as a manifest says. -/
def merge (o : Options) (m : Manifest) : Options :=
  let given (f : Flag) : Bool := o.given.contains f.name
  { o with
    continueOnError :=
      if given continueFlag then o.continueOnError else m.onError == Policy.continue.name
    maxDepth := if given maxDepthFlag then o.maxDepth else m.maxDepth
    logLevel := if given (logLevelFlag "warn") then o.logLevel else m.log.level
    logJson := if given logJsonFlag then o.logJson else m.log.format == "json" }

/-- The options with those of a manifest, if there is one. -/
def mergeSome (o : Options) (m : Option Manifest) : Options := (m.map o.merge).getD o

def policy (o : Options) : Policy := if o.continueOnError then .continue else .stop

/-- How to run scripts, whose loops may make `passes` passes. -/
def config (o : Options) (passes : Nat) : Session.Config :=
  { policy := o.policy, maxDepth := o.maxDepth, passes }

/-- How to log. -/
def logger (o : Options) : Except String Logger := Logger.ofLevel? o.logLevel o.logJson

end Options

end Scriptlet
