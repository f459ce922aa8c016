/-
# Flags

The command takes flags before its other arguments, with one or two hyphens.  A value follows an
equals sign or is the next argument; a flag that is a truth value takes one only after an equals
sign.
-/
import Pseudocode.Config.Basic
import Pseudocode.Number.Integer

namespace Pseudocode

/-- The values of the flags. -/
structure Flags where
  help : Bool := false
  dumpConfig : Bool := false
  configFile : String := ""
  config : Config := .standard
  /-- The names of the flags that were given. -/
  given : List String := []
deriving DecidableEq, Repr, Inhabited

/-- Why flags cannot be taken. -/
inductive FlagError where
  /-- Help was asked for by a flag that is none of the command's own. -/
  | helpAsked
  | badForm (argument : String)
  | unknown (name : String)
  | badValue (name value : String)
  | noValue (name : String)
deriving DecidableEq, Repr, Inhabited

namespace FlagError

def message : FlagError → String
  | helpAsked => "help requested"
  | badForm argument => "bad flag syntax: " ++ argument
  | unknown name => "flag provided but not defined: -" ++ name
  | badValue name value => "invalid value " ++ value ++ " for flag -" ++ name
  | noValue name => "flag needs an argument: -" ++ name

/-- The status with which the command ends. -/
def exitStatus : FlagError → Nat
  | helpAsked => 0
  | _ => 2

end FlagError

namespace Flags

/-- A truth value after an equals sign. -/
def readBool? (text : String) : Option Bool :=
  if ["1", "t", "T", "true", "TRUE", "True"].contains text then some true
  else if ["0", "f", "F", "false", "FALSE", "False"].contains text then some false
  else none

/-- A whole number of 64 bits. -/
def readInt64? (text : String) : Option Int :=
  (Number.readInt? text.toList).filter Number.fitsInt64

/-- Whether a flag is a truth value; `none` if there is no such flag. -/
def isSwitch? : String → Option Bool
  | "h" | "v" | "n" | "s" | "dumpconfig" => some true
  | "speed" | "max-steps" | "max-depth" | "seed" | "config" => some false
  | _ => none

/-- Gives a flag a value; `none` if it does not fit. -/
def assign? (f : Flags) (name value : String) : Option Flags :=
  let run := f.config.run
  let logging := f.config.logging
  match name with
  | "h" => (readBool? value).map fun help => { f with help }
  | "dumpconfig" => (readBool? value).map fun dumpConfig => { f with dumpConfig }
  | "config" => some { f with configFile := value }
  | "v" => (readBool? value).map fun verbose =>
      { f with config := { f.config with logging := { logging with verbose } } }
  | "n" => (readBool? value).map fun noColor =>
      { f with config := { f.config with logging := { logging with noColor } } }
  | "s" => (readBool? value).map fun step =>
      { f with config := { f.config with run := { run with step } } }
  | "speed" => (readInt64? value).map fun speed =>
      { f with config := { f.config with run := { run with speed } } }
  | "max-steps" => (readInt64? value).map fun maxSteps =>
      { f with config := { f.config with run := { run with maxSteps } } }
  | "max-depth" => (readInt64? value).map fun maxDepth =>
      { f with config := { f.config with run := { run with maxDepth } } }
  | "seed" => (readInt64? value).map fun seed =>
      { f with config := { f.config with run := { run with seed } } }
  | _ => none

/-- Gives a flag a value and notes that it was given. -/
def give (f : Flags) (name value : String) : Except FlagError Flags :=
  match f.assign? name value with
  | some f => .ok { f with given := name :: f.given }
  | none => .error (.badValue name value)

/-- The name of a flag and the value after an equals sign. -/
def splitValue (cs : List Char) : String × Option String :=
  match cs with
  | [] => ("", none)
  | c :: rest =>
      let name := c :: rest.takeWhile (· != '=')
      match rest.drop (name.length - 1) with
      | [] => (String.ofList name, none)
      | _ :: value => (String.ofList name, some (String.ofList value))

/-- Takes flags from the arguments; gives them and the other arguments. -/
def take (f : Flags) : List String → Except FlagError (Flags × List String)
  | [] => .ok (f, [])
  | argument :: rest =>
      match argument.toList with
      | ['-', '-'] => .ok (f, rest)
      | '-' :: c :: cs =>
          let body := if c == '-' then cs else c :: cs
          if body.head?.any fun c => c == '-' || c == '=' then .error (.badForm argument)
          else
            let (name, value?) := splitValue body
            match isSwitch? name, value?, rest with
            | none, _, _ => .error (if name == "help" then .helpAsked else .unknown name)
            | some true, value?, rest => do
                take (← f.give name (value?.getD "true")) rest
            | some false, some value, rest => do take (← f.give name value) rest
            | some false, none, value :: rest => do take (← f.give name value) rest
            | some false, none, [] => .error (.noValue name)
      | _ => .ok (f, argument :: rest)

/-- The configuration in effect: a flag that was given wins over the file, which wins over the
standard. -/
def withFile (f : Flags) (file : Config) : Config :=
  let choose {α : Type} (name : String) (flag file : α) : α :=
    if f.given.contains name then flag else file
  { run :=
      { step := choose "s" f.config.run.step file.run.step
        speed := choose "speed" f.config.run.speed file.run.speed
        maxSteps := choose "max-steps" f.config.run.maxSteps file.run.maxSteps
        maxDepth := choose "max-depth" f.config.run.maxDepth file.run.maxDepth
        seed := choose "seed" f.config.run.seed file.run.seed }
    logging :=
      { verbose := choose "v" f.config.logging.verbose file.logging.verbose
        noColor := choose "n" f.config.logging.noColor file.logging.noColor } }

end Flags

end Pseudocode
