/-
# What the command does

The arguments and the configuration file decide whether the command runs a program, prints
something or fails.  A job is only carried out after that, so that nothing is read from the input
before a program is there to read it.
-/
import Pseudocode.Command.Flags
import Pseudocode.Command.Job
import Pseudocode.Config.Reading

namespace Pseudocode

/-- What the command does. -/
inductive Plan where
  /-- Prints something, logs something and ends with a status. -/
  | finish (exit : Nat) (output : String) (log : List Log.Entry)
  | run (job : Job)
deriving Inhabited

namespace Plan

/-- How the command is used. -/
def usage : String := "Usage: pcode [options] <program.yaml>\nOptions:\n"

/-- Fails with a message. -/
def failure (message key value : String) : Plan :=
  finish 1 "" [⟨.fatal, message, [⟨key, some value⟩]⟩]

/-- The configuration in effect. -/
def configOf (flags : Flags) (files : String → Option String) : Except Config.LoadError Config :=
  if flags.configFile = "" then .ok flags.config
  else (Config.load flags.configFile (files flags.configFile)).map flags.withFile

/-- What the command does with flags, a configuration and the other arguments. -/
def ofConfig (flags : Flags) (config : Config) (styled : Bool) : List String → Plan
  | arguments =>
      if flags.help then finish 0 usage []
      else if flags.dumpConfig then finish 0 config.dump []
      else
        match arguments with
        | [] => failure "No input file provided" "help" "pcode -h"
        | file :: _ =>
            run { file, run := config.run, verbose := config.logging.verbose
                  styled := styled && !config.logging.noColor }

/-- What the command does with arguments. -/
def ofArguments (arguments : List String) (files : String → Option String) (styled : Bool) : Plan :=
  match Flags.take {} arguments with
  | .error e => finish e.exitStatus "" [⟨.error, e.message, []⟩]
  | .ok (flags, rest) =>
      match configOf flags files with
      | .error e => failure "Invalid configuration" "error" e.message
      | .ok config => ofConfig flags config styled rest

/-- What the command leaves behind, and its status. -/
def carryOut (fuel : Nat) (around : Surroundings) : Plan → Nat × JobResult
  | finish exit output log => (exit, { output, log, history := around.history })
  | run job =>
      let r := job.carryOut fuel around
      match r.error with
      | none => (0, r)
      | some e =>
          let last : Log.Entry := ⟨.fatal, "Run failed", [⟨"error", some e.message⟩]⟩
          (1, { r with log := r.log ++ [last] })

end Plan

end Pseudocode
