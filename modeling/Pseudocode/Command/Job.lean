/-
# Running a program file

A job loads a program document, runs it and reports how it ended.  It is described as a function
of the files, the input and the history it finds; what it writes is part of its result.
-/
import Pseudocode.Command.Debugger
import Pseudocode.Command.Log
import Pseudocode.Config.Basic
import Pseudocode.Document.Decoding
import Pseudocode.Host.Builtins

namespace Pseudocode

/-- Why a file cannot be read. -/
inductive FileProblem where
  /-- The path has a character that no path can have. -/
  | badPath
  /-- The path, or one of its components, is too long. -/
  | longPath
  /-- A file stands where the path needs a directory. -/
  | notDirectory
  /-- The path leads to a directory. -/
  | isDirectory
  | missing
deriving DecidableEq, Repr, Inhabited

/-- The message of a problem with the file at a path. -/
def FileProblem.message (path : String) : FileProblem → String
  | badPath => "open " ++ path ++ ": invalid argument"
  | longPath => "open " ++ path ++ ": file name too long"
  | notDirectory => "open " ++ path ++ ": not a directory"
  | isDirectory => "read " ++ path ++ ": is a directory"
  | missing => "open " ++ path ++ ": no such file or directory"

/-- Why a job failed. -/
inductive JobError where
  | emptyPath
  | noFile (path : String) (problem : FileProblem)
  | badDocument (path : String) (e : Document.Error)
  | notStarted (e : Failure)
  | runFailed (e : Failure)
deriving Inhabited

def JobError.message : JobError → String
  | emptyPath => "loading program failed: programfile: empty path"
  | noFile path problem => "loading program failed: " ++ problem.message path
  | badDocument path e => "loading program failed: programfile: " ++ path ++ ": " ++ e.message
  | notStarted e => "starting program failed: " ++ e.message
  | runFailed e => "run failed: " ++ e.message

/-- What a job finds around it. -/
structure Surroundings where
  /-- The text of a file, if there is one. -/
  file? : String → Option String
  input : String := ""
  /-- The text of the history file. -/
  history : String := ""
  /-- The random source that a seed gives. -/
  random : Int → RandomSource := fun seed => ⟨UInt64.ofInt seed⟩

/-- A program file and how it is to be run. -/
structure Job where
  file : String
  run : Config.RunOptions := {}
  verbose : Bool := false
  /-- Whether texts are styled. -/
  styled : Bool := false
  /-- Whether the run is told to end before it begins. -/
  cancelled : Bool := false
deriving Inhabited

/-- What a job leaves behind. -/
structure JobResult where
  output : ByteString := ""
  log : List Log.Entry := []
  error : Option JobError := none
  history : String := ""
deriving Inhabited

/-- A path without empty and dot components, and without components that a double dot undoes. -/
def cleanPath (path : String) : String :=
  let rooted := path.toList.head? == some '/'
  let step (done : List (List Char)) (part : List Char) : List (List Char) :=
    if part.isEmpty || part == ['.'] then done
    else if part == ['.', '.'] then
      match done with
      | [] => if rooted then [] else [part]
      | last :: rest => if last == ['.', '.'] then part :: done else rest
    else part :: done
  let parts := (path.toList.splitOn '/').foldl step []
  let joined := "/".intercalate (parts.reverse.map String.ofList)
  if rooted then "/" ++ joined else if joined = "" then "." else joined

/-- The paths that a path leads through, up to itself, each with its last component. -/
def stages (path : String) : List (String × List Char) :=
  let parts := path.toList.splitOn '/'
  parts.mapIdx fun n part => ("/".intercalate ((parts.take (n + 1)).map String.ofList), part)

/-- The paths of the directories that a path leads through. -/
def directories (path : String) : List String := ((stages path).map (·.1)).dropLast

/-- What is wrong with the first stage of a path that is no directory known by its name alone. -/
def FileProblem.ofStages (files : String → Option String) : List (String × List Char) → FileProblem
  | [] => isDirectory
  | (path, part) :: rest =>
      if 255 < (String.ofList part).utf8ByteSize then longPath
      else if (files path).isSome then notDirectory
      else if part.isEmpty || part == ['.'] || part == ['.', '.'] then ofStages files rest
      else missing

/-- Why there is no file at a clean path. -/
def FileProblem.ofPath (files : String → Option String) (path : String) : FileProblem :=
  if path.toList.contains (Char.ofNat 0) then badPath
  else if 4096 ≤ path.utf8ByteSize then longPath
  else ofStages files (stages path)

namespace Job

variable (fuel : Nat)

/-- Loads the program of a job. -/
def load (j : Job) (files : String → Option String) : Except JobError Program :=
  if j.file = "" then .error .emptyPath
  else
    let path := cleanPath j.file
    match files path with
    | none => .error (.noFile path (.ofPath files path))
    | some text => (Document.parse text).mapError (.badDocument path)

/-- What is shown of a program that cannot be loaded. -/
def loadReport (j : Job) : JobError → String
  | .badDocument _ e =>
      Text.Style.brightRed.apply j.styled "=== Syntax Errors ===" ++ "\n"
        ++ Text.Style.errorAt j.styled e.line e.column e.detail j.file ++ "\n"
  | _ => ""

/-- The session a job runs in. -/
def session (j : Job) (input : String) : Session := .new
  { maxSteps := j.run.maxSteps
    maxDepth := depthLimit j.run.maxDepth
    speed := if 0 < j.run.speed then some j.run.speed else none
    input := if j.run.step then Debugger.inputOf input else input }

/-- How the run of a job is started. -/
def launch (j : Job) (random : Int → RandomSource) : Session.Launch where
  stepping := j.run.step
  plugins := [Builtins.plugin]
  random := random j.run.seed
  cancelled := j.cancelled

/-- What is reported of a run that is over. -/
def outcomeReport (j : Job) (heap : Heap) : Outcome → String
  | .completed v =>
      (if v.isNothing then "" else
        Text.Style.info j.styled ("returned " ++ heap.inspect v) ++ "\n")
        ++ (if j.verbose then Text.Style.success j.styled "program finished" ++ "\n" else "")
  | .stopped => Text.Style.warning j.styled "program stopped" ++ "\n"
  | .failed e span =>
      Text.Style.brightRed.apply j.styled "=== Runtime Error ===" ++ "\n"
        ++ Text.Style.errorAt j.styled span.startLine span.startCol e.message j.file ++ "\n"

/-- What is logged of the end of a run. -/
def outcomeLog (heap : Heap) : Outcome → Log.Entry
  | .completed v => ⟨.info, "Run completed", [⟨"value", some (heap.inspect v)⟩]⟩
  | .stopped => ⟨.info, "Run stopped", []⟩
  | .failed e _ => ⟨.warn, "Run failed", [⟨"error", some e.message⟩]⟩

def outcomeError? : Outcome → Option JobError
  | .failed e _ => some (.runFailed e)
  | _ => none

/-- Reports how a run ended.  Output of the program is ended by a line feed first. -/
def report (j : Job) (s : Session) (history : String) : JobResult :=
  let output := s.console.written ++ (if s.output.isEmpty then "" else "\n")
  match s.outcome? with
  | none => { output, history }
  | some o =>
      { output := output ++ j.outcomeReport s.machine.heap o
        log := [outcomeLog s.machine.heap o]
        error := outcomeError? o
        history }

/-- Carries out a job.  The fuel bounds the steps of the run. -/
def carryOut (j : Job) (around : Surroundings) : JobResult :=
  match j.load around.file? with
  | .error e => { output := j.loadReport e, error := some e, history := around.history }
  | .ok program =>
      let history := History.ofText around.history
      match (j.session around.input).start fuel (some program) (j.launch around.random) with
      | (s, some e) =>
          { output := s.console.written, error := some (.notStarted e)
            history := if j.run.step then history.toText else around.history }
      | (s, none) =>
          if j.run.step then
            let d : Debugger := { session := s, history, styled := j.styled }
            let d := d.drive fuel
            j.report d.session d.history.toText
          else j.report s around.history

end Job

end Pseudocode
