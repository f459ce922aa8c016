/-
# What host functions do

A function of the host does not touch a run directly: it makes requests and gets answers.  What
it does is a tree whose inner nodes are requests, each with one subtree for every answer, and
whose leaves are its outcome.  A function that remembers earlier calls, or looks at a clock, gets
what it learns in that way as an answer too.
-/
import Pseudocode.Failure

namespace Pseudocode

/-- The phases of a session. -/
inductive Phase where
  | idle | running | paused | stopping | stopped | completed | failed
deriving DecidableEq, Repr, Inhabited

namespace Phase

/-- The phases in the order of their numbers. -/
def all : List Phase := [idle, running, paused, stopping, stopped, completed, failed]

def name : Phase → String
  | idle => "idle"
  | running => "running"
  | paused => "paused"
  | stopping => "stopping"
  | stopped => "stopped"
  | completed => "completed"
  | failed => "failed"

/-- The phase of a number. -/
def ofCode? (n : Int) : Option Phase := if n < 0 then none else all[n.toNat]?

/-- The name of a phase given by its number. -/
def nameOfCode (n : Int) : String :=
  match ofCode? n with
  | some p => p.name
  | none => "state(" ++ toString n ++ ")"

/-- Whether a run is in progress and has not been asked to stop. -/
def isActive : Phase → Bool
  | running | paused => true
  | _ => false

/-- The mode a phase is shown as. -/
def mode (stepping : Bool) : Phase → String
  | running | paused | stopping => if stepping then "step" else "run"
  | completed | failed | stopped => "end"
  | idle => "stop"

end Phase

/-- The mode of a phase given by its number. -/
def Phase.modeOfCode (n : Int) (stepping : Bool) : String :=
  match Phase.ofCode? n with
  | some p => p.mode stepping
  | none => "stop"

/-- A view of a session at one moment. -/
structure Status where
  phase : Phase
  stepping : Bool
  /-- The statement about to run, or the one that failed. -/
  span : Span
  error : Option Failure
deriving Inhabited

def Status.mode (s : Status) : String := s.phase.mode s.stepping

/-- What a host function can ask for. -/
inductive Request where
  /-- Call another function. -/
  | call (name : String) (args : List Value)
  /-- Write to the console. -/
  | write (text : ByteString)
  /-- Write to the console and remember the text as the last one displayed. -/
  | display (text : ByteString)
  /-- Show a prompt and read a line. -/
  | prompt (text : ByteString)
  /-- Look at the lists. -/
  | heap
  /-- Make a list. -/
  | make (items : List Value)
  | push (id : ListId) (v : Value)
  | insert (id : ListId) (index : Nat) (v : Value)
  | erase (id : ListId) (index : Nat)
  /-- Draw a random number below a bound. -/
  | draw (bound : Nat)
  /-- Ask for what only the host knows: what it remembers, the time, or anything else. -/
  | consult
  /-- Where the call stands in the program. -/
  | site
  /-- Whether the run has been told to end. -/
  | cancelled
  /-- Ask the run to stop. -/
  | stop
  /-- Ask the run to go on, with or without single-stepping. -/
  | resume (stepping : Bool)
  | status
  /-- Ask for a snapshot of the frames. -/
  | snapshot
  /-- What the run has written so far. -/
  | output
  | speed
  | setSpeed (n : Int)
  /-- Wait until released. -/
  | hold

/-- The answers to each request. -/
def Request.Answer : Request → Type
  | .call _ _ => Except Failure Value
  | .write _ => Option HostError
  | .display _ => Option HostError
  | .prompt _ => Except HostError ByteString
  | .heap => Heap
  | .make _ => ListId
  | .push _ _ => Unit
  | .insert _ _ _ => Unit
  | .erase _ _ => Unit
  | .draw _ => Nat
  | .consult => Nat
  | .site => Span
  | .cancelled => Bool
  | .stop => Unit
  | .resume _ => Bool
  | .status => Status
  | .snapshot => Option Snapshot
  | .output => ByteString
  | .speed => Int
  | .setSpeed _ => Unit
  | .hold => Unit

/-- What a host function does. -/
inductive Action (α : Type) where
  | pure (result : α)
  | fail (e : Failure)
  /-- A breakdown of the function itself. -/
  | crash (text : String)
  | ask (q : Request) (next : q.Answer → Action α)

namespace Action

variable {α β : Type}

/-- Goes on with the result of an action. -/
def bind : Action α → (α → Action β) → Action β
  | pure a, f => f a
  | fail e, _ => fail e
  | crash text, _ => crash text
  | ask q next, f => ask q fun a => (next a).bind f

instance : Monad Action where
  pure := pure
  bind := bind

instance : Inhabited (Action α) := ⟨crash ""⟩

/-- Makes a request and returns its answer. -/
def request (q : Request) : Action q.Answer := ask q pure

/-- Fails with an error of the host's own. -/
def error (text : String) : Action α := fail (.host { text })

/-- Fails with a fault located at the call. -/
def fault (kind : FaultKind) (detail : String) : Action α :=
  ask .site fun span => fail (.fault { kind, detail, span })

/-- Continues unless there is an error. -/
def check : Option HostError → Action Unit
  | none => pure ()
  | some e => fail (.host e)

end Action

/-- A host function: what it does with its arguments. -/
abbrev Native := List Value → Action Value

end Pseudocode
