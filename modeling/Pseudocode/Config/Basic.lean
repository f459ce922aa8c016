/-
# Run configurations

A configuration says how a program is run and what is logged.  Its text has a table for each of
the two.
-/
import Pseudocode.Run.Session

namespace Pseudocode

namespace Config

/-- How a program is run. -/
structure RunOptions where
  /-- Whether the run starts paused, one statement to a step. -/
  step : Bool := false
  /-- The delay between statements in milliseconds. -/
  speed : Int := 0
  /-- How many statements may run; zero for any number. -/
  maxSteps : Int := 0
  /-- How deep calls may be nested. -/
  maxDepth : Int := 0
  /-- The seed of random numbers; zero takes it from the clock. -/
  seed : Int := 0
deriving DecidableEq, Repr, Inhabited

/-- What is logged. -/
structure LogOptions where
  verbose : Bool := false
  noColor : Bool := false
deriving DecidableEq, Repr, Inhabited

end Config

/-- A run configuration. -/
structure Config where
  run : Config.RunOptions := {}
  logging : Config.LogOptions := {}
deriving DecidableEq, Repr, Inhabited

namespace Config

/-- The configuration that holds where nothing else is said. -/
def standard : Config := { run := { maxDepth := defaultMaxDepth } }

/-- A line of a configuration text. -/
def line (key text : String) : String := key ++ " = " ++ text ++ "\n"

def boolText (b : Bool) : String := if b then "true" else "false"

/-- A configuration as a text. -/
def dump (c : Config) : String :=
  "[Run]\n"
    ++ line "Step" (boolText c.run.step)
    ++ line "Speed" (toString c.run.speed)
    ++ line "MaxSteps" (toString c.run.maxSteps)
    ++ line "MaxDepth" (toString c.run.maxDepth)
    ++ line "Seed" (toString c.run.seed)
    ++ "\n[Logging]\n"
    ++ line "Verbose" (boolText c.logging.verbose)
    ++ line "NoColor" (boolText c.logging.noColor)

end Config

end Pseudocode
