import FplCompiler.Settings.Stage

/-! How much a compilation reports. -/

namespace FplCompiler

inductive OutputLevel where
  | quiet | detailed | verbose
  deriving DecidableEq, Repr

def OutputLevel.name : OutputLevel → String
  | quiet => "quiet"
  | detailed => "detailed"
  | verbose => "verbose"

structure Verbosity where
  debug : Bool := false
  traces : List TraceKind := []
  quiet : Bool := false
  verbose : Nat := 0
  deriving DecidableEq, Repr

namespace Verbosity

def silent : Verbosity :=
  { quiet := true }

def level (verbosity : Verbosity) : Nat :=
  if verbosity.quiet then 0
  else if verbosity.debug then max verbosity.verbose 2
  else verbosity.verbose

def showsPhases (verbosity : Verbosity) : Bool :=
  !verbosity.quiet

def showsInfo (verbosity : Verbosity) : Bool :=
  1 ≤ verbosity.level

def showsDebug (verbosity : Verbosity) : Bool :=
  2 ≤ verbosity.level

def showsTrace (verbosity : Verbosity) : Bool :=
  3 ≤ verbosity.level

def traced (verbosity : Verbosity) (kind : TraceKind) : Bool :=
  !verbosity.quiet && (verbosity.debug || verbosity.traces.contains kind)

def outputLevel (verbosity : Verbosity) : OutputLevel :=
  if verbosity.quiet then .quiet else if 0 < verbosity.verbose then .verbose else .detailed

end Verbosity

end FplCompiler
