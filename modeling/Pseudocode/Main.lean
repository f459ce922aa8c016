/-
# The command

Runs a program file: reads the files and the input, carries out the plan, and writes what it
leaves behind.
-/
import Pseudocode.Command.Plan

open Pseudocode

/-- The text of a file, if it can be read. -/
def fileText? (name : String) : IO (Option String) := do
  try return some (← IO.FS.readFile name)
  catch _ => return none

/-- The whole input. -/
def inputText (stdin : IO.FS.Stream) : IO String := do
  let mut text := ""
  repeat
    let line ← stdin.getLine
    if line.isEmpty then break
    text := text ++ line
  return text

/-- The name of the file that keeps the history of commands. -/
def historyFile : IO (Option String) := do
  return (← IO.getEnv "HOME").map (· ++ "/.pcode_history")

/-- The most steps of a run: more than any run can take. -/
def stepBound : Nat := 1000000000000000000

def main (arguments : List String) : IO UInt32 := do
  -- the names of all files that the command may ask for are among its arguments
  let values := arguments.map fun a => String.ofList ((a.toList.dropWhile (· != '=')).drop 1)
  let names := arguments ++ values
  let paths := names.map cleanPath
  let texts ← (names ++ paths ++ paths.flatMap directories).mapM fun name =>
    return (name, ← fileText? name)
  let file? (name : String) : Option String := (texts.lookup name).join
  let plan := Plan.ofArguments arguments file? false
  let history ← historyFile
  let around : Surroundings ←
    match plan with
    | .finish .. => pure { file? }
    | .run _ => do
        let input ← inputText (← IO.getStdin)
        let kept ← history.mapM fileText?
        pure { file?, input, history := kept.join.getD "" }
  let (exit, result) := plan.carryOut stepBound around
  (← IO.getStdout).write result.output.bytes
  IO.eprint (Log.render false result.log)
  match plan, history with
  | .run job, some name =>
      if job.run.step && result.history != around.history then
        IO.FS.writeFile name result.history
  | _, _ => pure ()
  return exit.toUInt32
