/-
# Sessions

A session runs one program at a time and can be watched and steered from outside: it can be
stepped, continued, stopped and inspected.  Whoever changes the phase reports that to an observer
afterwards, and the observer is shown the phase as it is by then.

The run and its callers share the controls.  Each reading or change of them that cannot be divided
is a step of its own, so that a command can come between any two of them.

While single-stepping, a run waits at every statement boundary for a token.  A request to step
hands one to a run that waits already and stores one otherwise; at most one is stored.
-/
import Pseudocode.Run.Console
import Pseudocode.Run.Machine

namespace Pseudocode

/-- A phase as the observer was shown it. -/
structure Notice where
  phase : Phase
  stepping : Bool
deriving DecidableEq, Repr, Inhabited

/-- How far a run that pauses has got with its wait for a token or for word to end. -/
inductive Wait where
  /-- It has not looked for either. -/
  | polling
  /-- It has found neither, and waits until one of them comes. -/
  | parked
  /-- It has got a token. -/
  | granted
  /-- It has got word to end. -/
  | dismissed
deriving DecidableEq, Repr, Inhabited

/-- The controls of a session. -/
structure Controller where
  phase : Phase := .idle
  stepping : Bool := false
  /-- The statement about to run, or the one that failed. -/
  span : Span := .none
  error : Option Failure := none
  /-- Whether a token is stored. -/
  token : Bool := false
  /-- How far a run that pauses has got. -/
  wait : Wait := .polling
  /-- Whether the run has been told to end. -/
  cancelled : Bool := false
  /-- Whether a run that may go on and is told to end, both at once, goes on. -/
  eager : Bool := false
  /-- The delay between statements in milliseconds, zero if none was set. -/
  speed : Int := 0
  /-- What the observer was shown, the latest first. -/
  notices : List Notice := []
  /-- Whether the run has a change of phase to report before it goes on. -/
  reporting : Bool := false
  /-- How many others have one to report. -/
  callers : Nat := 0
  /-- Whether the observer breaks down when it sees a pause. -/
  fragile : Bool := false
deriving Inhabited

namespace Controller

/-- Shows the phase to the observer. -/
def notify (c : Controller) : Controller :=
  { c with notices := ⟨c.phase, c.stepping⟩ :: c.notices }

/-- Makes the report that the run has to make. -/
def report (c : Controller) : Controller := { c.notify with reporting := false }

/-- Tells the run to end.  One that waits has got word then. -/
def cancel (c : Controller) : Controller :=
  { c with cancelled := true, wait := if c.wait = .parked then .dismissed else c.wait }

/-- Asks the run to stop; the change is yet to be reported. -/
def requestStop (c : Controller) : Controller :=
  if c.phase.isActive then { c with phase := .stopping }.cancel else c

/-- Leaves a token: with the run if it waits, else in the store. -/
def grant (c : Controller) : Controller :=
  if c.wait = .parked then { c with wait := .granted } else { c with token := true }

/-- Asks the run to go on, with or without single-stepping; `none` if there is nothing that
could go on. -/
def resume? (c : Controller) (stepping : Bool) : Option Controller :=
  if c.phase.isActive then
    let c := { c with stepping }
    some (if stepping || c.phase == .paused then c.grant else c)
  else none

/-- Looks for a token and for word to end. -/
def poll (c : Controller) : Controller :=
  if c.token && (c.eager || !c.cancelled) then { c with token := false, wait := .granted }
  else { c with wait := if c.cancelled then .dismissed else .parked }

/-- Leaves a pause with a token; the change is yet to be reported. -/
def proceed (c : Controller) : Controller :=
  { c with
    wait := .polling
    phase := if c.phase = .paused then .running else c.phase
    reporting := true }

/-- The shortest and the longest delay. -/
def minSpeed : Int := 1

def maxSpeed : Int := 2000

/-- Sets the delay, kept between the shortest and the longest. -/
def setSpeed (c : Controller) (n : Int) : Controller :=
  { c with speed := min maxSpeed (max minSpeed n) }

def status (c : Controller) : Status := ⟨c.phase, c.stepping, c.span, c.error⟩

/-- Whether the frames may be looked at. -/
def inspectable (c : Controller) : Bool :=
  match c.phase with
  | .paused | .stopped | .completed | .failed => true
  | _ => false

end Controller

/-- What a session is set up with. -/
structure Settings where
  /-- The most statements of a run; zero or less for no limit. -/
  maxSteps : Int := 0
  maxDepth : Nat := 10000
  speed : Option Int := none
  input : ByteString := ""
  writeLimit : Option Nat := none
  fragileObserver : Bool := false
  /-- How many cells a list that outgrows so many gets beyond those that it needs. -/
  slack : Nat → Nat := fun n => n - 1
deriving Inhabited

/-- The most calls in progress unless chosen otherwise. -/
def defaultMaxDepth : Nat := 10000

/-- The call limit for a chosen number; zero or less selects the default. -/
def depthLimit (n : Int) : Nat := if n ≤ 0 then defaultMaxDepth else n.toNat

/-- A session. -/
structure Session where
  controller : Controller := {}
  machine : Machine := {}
  console : Console := {}
  program : Option Program := none
  maxSteps : Nat := 0
  maxDepth : Nat := defaultMaxDepth
deriving Inhabited

namespace Session

/-- A session that has not run anything. -/
def new (o : Settings) : Session :=
  let controller : Controller := { fragile := o.fragileObserver }
  { controller := match o.speed with
      | some n => controller.setSpeed n
      | none => controller
    machine := { heap := { slack := o.slack } }
    console := { input := o.input.toList, limit := o.writeLimit }
    maxSteps := o.maxSteps.toNat
    maxDepth := o.maxDepth }

def goto (s : Session) (c : Control) : Session := { s with machine := s.machine.goto c }

/-- What the current or last run wrote. -/
def output (s : Session) : ByteString := s.console.transcript

/-- The frames, if they may be looked at.  After a failure they are those at the point of
failure. -/
def snapshot? (s : Session) : Option Snapshot :=
  if s.controller.inspectable then
    match s.controller.phase, s.machine.failedStack with
    | .failed, some stack => some stack
    | _, _ => some s.machine.snapshot
  else none

/-! ### Statement boundaries -/

/-- Looks whether the run has been told to end. -/
def checkpoint (s : Session) (n : Node) : Session :=
  s.goto (if s.controller.cancelled then .fail .stopped else .boundary .admitted n)

/-- Reaches the boundary of a statement: it becomes the current one and is counted. -/
def reach (s : Session) (n : Node) : Session :=
  let m := { s.machine with
    pending := .leave s.machine.current :: s.machine.pending
    current := n.span }
  if n.isMissing then { s with machine := m.raise .invalidOperation "missing statement" .none }
  else
    let m := { m with steps := m.steps + 1 }
    if 0 < m.maxSteps ∧ m.maxSteps < m.steps then
      { s with machine := m.raise .maxStepsExceeded ("(" ++ toString m.maxSteps ++ ")") n.span }
    else { s with machine := m }.checkpoint n

/-- Heeds the controls and shows the statement.  Single-stepping takes a stored token, without
one the run pauses; but only a run that is shown as running does. -/
def heed (s : Session) (n : Node) : Session :=
  let c := { s.controller with span := n.span }
  if c.stepping then
    if c.token then { s with controller := { c with token := false } }.goto (.exec n)
    else if c.phase = .running then
      { s with controller := { c with phase := .paused, reporting := true } }.goto
        (.boundary .paused n)
    else { s with controller := c }.goto (.exec n)
  else { s with controller := c }.goto (if c.speed = 0 then .exec n else .boundary .throttled n)

/-- Goes on in a pause. -/
def wake (s : Session) (n : Node) : Session :=
  match s.controller.wait with
  | .polling => { s with controller := s.controller.poll }
  | .parked => s
  | .granted => { s with controller := s.controller.proceed }.goto (.exec n)
  | .dismissed => { s with controller := { s.controller with wait := .polling } }.goto
      (.fail .stopped)

/-- Goes on at the boundary of a statement. -/
def pass (s : Session) (n : Node) : Standing → Session
  | .admitted => s.heed n
  | .throttled =>
      s.goto (if s.controller.cancelled then .fail .stopped else .boundary .delayed n)
  | .delayed =>
      s.goto (if s.controller.cancelled && !s.controller.eager then .fail .stopped else .exec n)
  | .paused => s.wake n

/-! ### Requests of host functions -/

/-- Hands an answer to a host function. -/
def answer (s : Session) (site : Span) (next : Action Value) : Session := s.goto (.host site next)

/-- Carries out a request of a host function. -/
def perform (s : Session) (site : Span) : (q : Request) → (q.Answer → Action Value) → Session
  | .call name args, next =>
      { s with machine :=
          s.machine.await (.reenter site s.machine.store.depth next) (.call name args site) }
  | .write text, next =>
      let (e, console) := s.console.write text
      { s with console }.answer site (next e)
  | .display text, next =>
      let (e, console) := s.console.write text
      let machine := { s.machine with lastDisplay := text }
      { s with console, machine }.answer site (next e)
  | .prompt text, next =>
      let (line, console) := s.console.prompt s.machine.lastDisplay text
      { s with console }.answer site (next line)
  | .heap, next => s.answer site (next s.machine.heap)
  | .make items, next =>
      let (id, heap) := s.machine.heap.alloc items.toArray
      let machine := { s.machine with heap }
      { s with machine }.answer site (next id)
  | .push id v, next =>
      let machine := { s.machine with heap := s.machine.heap.push id v }
      { s with machine }.answer site (next ())
  | .insert id i v, next =>
      let machine := { s.machine with heap := s.machine.heap.insert id i v }
      { s with machine }.answer site (next ())
  | .erase id i, next =>
      let machine := { s.machine with heap := s.machine.heap.erase id i }
      { s with machine }.answer site (next ())
  | .draw n, next =>
      let (k, random) := s.machine.random.below n
      let machine := { s.machine with random }
      { s with machine }.answer site (next k)
  | .consult, next =>
      let machine := { s.machine with tidings := fun n => s.machine.tidings (n + 1) }
      { s with machine }.answer site (next (s.machine.tidings 0))
  | .site, next => s.answer site (next site)
  | .cancelled, next => s.answer site (next s.controller.cancelled)
  | .stop, next =>
      let c := s.controller.requestStop
      { s with controller := { c with reporting := s.controller.phase.isActive } }.answer site
        (next ())
  | .resume stepping, next =>
      match s.controller.resume? stepping with
      | some controller => { s with controller }.answer site (next true)
      | none => s.answer site (next false)
  | .status, next => s.answer site (next s.controller.status)
  | .snapshot, next => s.answer site (next s.snapshot?)
  | .output, next => s.answer site (next s.output)
  | .speed, next => s.answer site (next s.controller.speed)
  | .setSpeed n, next =>
      { s with controller := s.controller.setSpeed n }.answer site (next ())
  | .hold, next => s.goto (.held site (next ()))

/-- Lets a host function act. -/
def act (s : Session) (site : Span) : Action Value → Session
  | .pure v => s.goto (.value v)
  | .fail e => s.goto (.fail e)
  | .crash text => s.goto (.crash text)
  | .ask q next => s.perform site q next

/-! ### The end of a run -/

/-- Shows how the run ended; the change is yet to be reported. -/
def finish (s : Session) (o : Outcome) : Session :=
  let c := { s.controller with cancelled := true, reporting := true }
  let c := match o with
    | .completed _ => { c with phase := .completed, error := none }
    | .stopped => { c with phase := .stopped, error := none }
    | .failed e span => { c with phase := .failed, error := some e, span }
  { s with controller := c }.goto (.ended o)

/-- Ends the run after its last statement, or at a return outside every procedure. -/
def finishCompleted (s : Session) : Completion → Session
  | .returned v => s.goto (.ending (.completed v))
  | .next => s.goto (.ending (if s.controller.cancelled then .stopped else .completed .nothing))

/-- Ends the run with a failure.  A run that has been told to end is stopped, whatever the
finishing statement reported. -/
def finishFailed (s : Session) (e : Failure) : Session :=
  if s.controller.cancelled || e.isStopped then s.goto (.ending .stopped)
  else
    let machine := { s.machine with failedStack := e.fault?.bind (·.stack) }
    { s with machine }.goto (.ending (.failed e s.machine.current))

/-- Ends the run after a breakdown outside every host function. -/
def finishCrashed (s : Session) (text : String) : Session :=
  s.goto (.ending (.failed (.fault
    { kind := .invalidOperation, detail := "internal error: " ++ text,
      span := s.machine.current }) s.machine.current))

/-! ### Steps -/

/-- Takes the task on top and does something with it; without one, the run ends. -/
def withTask (s : Session) (next : Machine → Pending → Machine) (last : Session → Session) :
    Session :=
  match s.machine.pending with
  | [] => last s
  | p :: rest => { s with machine := next { s.machine with pending := rest } p }

/-- Whether the run is held up at the boundary of a statement. -/
def isPaused (s : Session) : Bool :=
  match s.machine.control with
  | .boundary .paused _ => true
  | _ => false

/-- Whether the observer breaks down when it is shown the phase. -/
def falters (s : Session) : Bool :=
  s.isPaused && s.controller.fragile && s.controller.phase == .paused

/-- Reports a change of phase. -/
def report (s : Session) : Session :=
  let t := { s with controller := s.controller.report }
  if s.falters then t.goto (.crash "hook failed") else t

/-- Goes on with what is being done. -/
def proceed (s : Session) : Session :=
  match s.machine.control with
  | .idle => s
  | .ended _ => s
  | .held _ _ => s
  | .reach n => s.reach n
  | .boundary p n => s.pass n p
  | .host site a => s.act site a
  | .eval n => { s with machine := s.machine.eval n }
  | .exec n => { s with machine := s.machine.exec n }
  | .block b => { s with machine := s.machine.block b }
  | .choose branches => { s with machine := s.machine.choose branches }
  | .call name args site => { s with machine := s.machine.call name args site }
  | .value v => s.withTask (fun m p => m.resume v p) (·.finishCompleted .next)
  | .complete c =>
      let cancelled := s.controller.cancelled
      s.withTask (fun m p => m.proceed cancelled c p) (·.finishCompleted c)
  | .fail e => s.withTask (fun m p => m.unwind e p) (·.finishFailed e)
  | .crash text => s.withTask (fun m p => m.collapse text p) (·.finishCrashed text)
  | .ending o => s.finish o

/-- One step of the run. -/
def step (s : Session) : Session := if s.controller.reporting then s.report else s.proceed

/-- Whether the run waits for something from outside, or is over. -/
def isQuiet (s : Session) : Bool :=
  !s.controller.reporting &&
    match s.machine.control with
    | .idle | .ended _ | .held _ _ => true
    | .boundary .paused _ => s.controller.wait == .parked
    | _ => false

/-- Whether the run waits for an answer at a statement boundary. -/
def waits (s : Session) : Bool := s.isPaused && s.isQuiet

/-- Takes steps until the run is quiet, at most as many as the fuel allows. -/
def advance : (fuel : Nat) → Session → Session
  | 0, s => s
  | fuel + 1, s => if s.isQuiet then s else advance fuel s.step

/-! ### Commands -/

/-- A caller asks the run to stop.  If that changes the phase, the caller has that to report. -/
def askStop (s : Session) : Session :=
  if s.controller.phase.isActive then
    { s with controller := { s.controller.requestStop with callers := s.controller.callers + 1 } }
  else s

/-- A caller that has a change of phase to report does so. -/
def reportCall (s : Session) : Session :=
  if 0 < s.controller.callers then
    { s with controller := { s.controller.notify with callers := s.controller.callers - 1 } }
  else s

/-- Asks the run to stop and reports that at once. -/
def requestStop (s : Session) : Session :=
  if s.controller.phase.isActive then s.askStop.reportCall else s

/-- Stops the run and waits for its end. -/
def stop (fuel : Nat) (s : Session) : Session := s.requestStop.advance fuel

/-- Tells the run to end without asking the session. -/
def cancel (s : Session) : Session :=
  match s.program with
  | none => s
  | some _ => { s with controller := s.controller.cancel }

/-- Asks the run to go on; `none` if there is nothing that could. -/
def resume? (s : Session) (stepping : Bool) : Option Session :=
  (s.controller.resume? stepping).map fun controller => { s with controller }

def setSpeed (s : Session) (n : Int) : Session :=
  { s with controller := s.controller.setSpeed n }

/-- Lets a host function that waits go on. -/
def release? (s : Session) : Option Session :=
  match s.machine.control with
  | .held site next => some (s.goto (.host site next))
  | _ => none

def isHeld (s : Session) : Bool :=
  match s.machine.control with
  | .held _ _ => true
  | _ => false

/-- How the run ended, if it has. -/
def outcome? (s : Session) : Option Outcome :=
  match s.machine.control with
  | .ended o => some o
  | _ => none

/-- What a start needs besides the program. -/
structure Launch where
  stepping : Bool := false
  plugins : List Plugin := []
  random : RandomSource := default
  /-- What the host has to tell during the run. -/
  tidings : Nat → Nat := fun _ => 0
  /-- Whether the run is told to end before it begins. -/
  cancelled : Bool := false

/-- The machine at the start of a run. -/
def freshMachine (s : Session) (program : Program) (l : Launch) : Except Fault Machine := do
  let functions ← Registry.declareAll (Plugin.addFunctions l.plugins {}) program.procedures
  let (store, heap) := Plugin.addVars l.plugins (.empty, s.machine.heap)
  return {
    control := .complete .next
    pending := [.sequence program.statements]
    store, heap, functions
    random := l.random
    tidings := l.tidings
    maxSteps := s.maxSteps
    maxDepth := s.maxDepth }

/-- Begins a run, the one before being over.  If that one has not reported its end, it still does;
the run that begins goes on when its beginning has been reported. -/
def launch (s : Session) (program : Program) (l : Launch) : Except Fault Session := do
  let machine ← s.freshMachine program l
  let controller : Controller := { s.controller with
    phase := .running
    stepping := l.stepping
    span := .none
    error := none
    token := false
    wait := .polling
    cancelled := l.cancelled
    eager := false
    reporting := true
    callers := s.controller.callers + s.controller.reporting.toNat }
  return { s with
    controller
    machine
    console := { s.console with transcript := "" }
    program := some program }

/-- Starts a program and runs it until it is quiet.  A run in progress is stopped first.  A
program that cannot be run leaves the session as that run left it. -/
def start (fuel : Nat) (s : Session) (program : Option Program) (l : Launch) :
    Session × Option Failure :=
  match program with
  | none => (s, some (.host { text := "no program to run" }))
  | some program =>
      let s := s.stop fuel
      match s.launch program l with
      | .ok s => (s.advance fuel, none)
      | .error f => (s, some (.fault f))

end Session

end Pseudocode
