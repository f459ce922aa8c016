/-
# The debugger

In step mode a run pauses before every statement, and a line of input is taken as a command that
says how to go on.  The program reads its own input from the same lines.
-/
import Pseudocode.Command.History
import Pseudocode.Run.Session
import Pseudocode.Text.Lowercase
import Pseudocode.Text.Style

namespace Pseudocode

/-- What a line of input tells the debugger to do. -/
inductive Directive where
  | step
  | continue
  | quit
  | vars
  | help
  | unknown (text : String)
deriving DecidableEq, Repr, Inhabited

namespace Directive

/-- A command without blanks around it and in lower case. -/
def normalize (line : ByteString) : String :=
  String.ofList ((Text.trim line.chars).map Text.toLower)

/-- The directive of a normalized command; an empty one is a step. -/
def ofText : String → Directive
  | "" | "s" | "step" => .step
  | "c" | "continue" => .continue
  | "q" | "quit" => .quit
  | "v" | "vars" => .vars
  | "h" | "help" => .help
  | text => .unknown text

end Directive

/-- A session in step mode, with the history of commands. -/
structure Debugger where
  session : Session
  history : History := {}
  /-- Whether texts are styled. -/
  styled : Bool := false
deriving Inhabited

namespace Debugger

/-- What the commands are. -/
def helpText : String :=
  "Commands:\n"
    ++ "  step, s      run the next statement (also: empty line)\n"
    ++ "  continue, c  run to the end\n"
    ++ "  vars, v      show the call stack and its variables\n"
    ++ "  quit, q      stop the program\n"
    ++ "  help, h      show this help\n"

/-- The input of a run in step mode: its lines, each ended by a line feed. -/
def inputOf (text : String) : ByteString :=
  .ofList ((Text.lines text).flatMap fun line => line.text ++ [0x0A])

/-- Shows a text. -/
def announce (d : Debugger) (text : String) : Debugger :=
  { d with session := { d.session with console := d.session.console.announce text } }

/-- The variables of a frame below its label. -/
def frameText (styled : Bool) (heap : Heap) (f : Frame) : String :=
  Text.Style.bold.apply styled f.label ++ "\n"
    ++ String.join (f.vars.entries.map fun (name, v) =>
        "  " ++ Text.Style.cyan.apply styled name ++ " = " ++ heap.inspect v ++ "\n")

/-- The frames, the global one first. -/
def framesText (d : Debugger) : String :=
  match d.session.snapshot? with
  | some s => String.join (s.store.frames.map (frameText d.styled s.heap))
  | none => Text.Style.error d.styled FaultKind.notPaused.text ++ "\n"

/-- Lets the run go on until it is quiet again. -/
def resume (fuel : Nat) (d : Debugger) (stepping : Bool) : Debugger :=
  match d.session.resume? stepping with
  | some s => { d with session := s.advance fuel }
  | none => d

/-- Stops the run. -/
def stop (fuel : Nat) (d : Debugger) : Debugger := { d with session := d.session.stop fuel }

/-- Follows a directive. -/
def follow (fuel : Nat) (d : Debugger) : Directive → Debugger
  | .step => d.resume fuel true
  | .continue => d.resume fuel false
  | .quit => d.stop fuel
  | .vars => d.announce d.framesText
  | .help => d.announce helpText
  | .unknown text => d.announce (Text.Style.warning d.styled ("unknown command " ++ text) ++ "\n")

/-- Prompts for a command and follows it.  The end of the input stops the run. -/
def prompt (fuel : Nat) (d : Debugger) : Debugger :=
  let d := d.announce ("[" ++ d.session.controller.span.toText ++ "] > ")
  match d.session.console.readLine with
  | (.error _, _) => d.stop fuel
  | (.ok line, console) =>
      let command := Directive.normalize line
      let history := if command = "" then d.history else d.history.add command
      let d := { d with session := { d.session with console }, history }
      d.follow fuel (.ofText command)

/-- Answers pauses until the run is over.  Each answer takes a line of input or ends the run, so
there are at most as many rounds as lines, and one more. -/
def rounds (fuel : Nat) : Nat → Debugger → Debugger
  | 0, d => d
  | n + 1, d => if d.session.waits then rounds fuel n (d.prompt fuel) else d

/-- Drives a run that has been started in step mode to its end. -/
def drive (fuel : Nat) (d : Debugger) : Debugger :=
  rounds fuel (d.session.console.input.length + 1) (d.announce helpText)

end Debugger

end Pseudocode
