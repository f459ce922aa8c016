/-
# Failures

A run can fail in two ways of its own: with a fault, which has a kind, a detail and a location,
or by being stopped.  Functions of the host may fail with errors of theirs, and may wrap a
failure they were handed.
-/
import Pseudocode.Tree.Span
import Pseudocode.Store.Basic
import Pseudocode.Value.Heap

namespace Pseudocode

/-- The kinds of faults. -/
inductive FaultKind where
  | undefinedVariable
  | undefinedList
  | notAList
  | indexOutOfRange
  | unknownFunction
  | arityMismatch
  | invalidRepeatCount
  | invalidOperation
  | hostFunction
  | maxStepsExceeded
  | callDepthExceeded
  | notRunning
  | notPaused
  | parse
deriving DecidableEq, Repr, Inhabited

namespace FaultKind

/-- All kinds, in the order in which they are listed. -/
def all : List FaultKind :=
  [undefinedVariable, undefinedList, notAList, indexOutOfRange, unknownFunction, arityMismatch,
   invalidRepeatCount, invalidOperation, hostFunction, maxStepsExceeded, callDepthExceeded,
   notRunning, notPaused, parse]

/-- What a kind of fault is called in a message. -/
def text : FaultKind → String
  | undefinedVariable => "no such variable"
  | undefinedList => "no such list"
  | notAList => "not a list"
  | indexOutOfRange => "list index out of range"
  | unknownFunction => "no such procedure"
  | arityMismatch => "number of actual and formal parameters differ in function call"
  | invalidRepeatCount => "invalid repeat limit"
  | invalidOperation => "invalid operation"
  | hostFunction => "host function failed"
  | maxStepsExceeded => "maximum steps exceeded"
  | callDepthExceeded => "maximum call depth exceeded"
  | notRunning => "not running"
  | notPaused => "state can only be inspected while paused or after the run ends"
  | parse => "parse error"

end FaultKind

/-- The frames of a run at one moment, with the lists their variables hold. -/
structure Snapshot where
  store : Store
  heap : Heap
deriving Inhabited

/-- An error of a host function; `canceled` marks the one that tells there is no more input. -/
structure HostError where
  text : String
  canceled : Bool := false
deriving DecidableEq, Repr, Inhabited

/-- A failure tied to the place in the program that raised it. -/
structure Fault where
  kind : FaultKind
  detail : String := ""
  span : Span := .none
  /-- The closest known name; empty if there is none. -/
  hint : String := ""
  /-- The host's own error, if the fault reports one. -/
  cause : Option HostError := none
  /-- The frames at the point of failure, once they have been popped. -/
  stack : Option Snapshot := none
deriving Inhabited

/-- The message of a fault: its kind, its detail, its place and a hint, as far as present. -/
def Fault.message (f : Fault) : String :=
  f.kind.text
    ++ (if f.detail = "" then "" else " " ++ f.detail)
    ++ (if f.span.isNone then ""
        else " at line " ++ toString f.span.startLine ++ " col: " ++ toString f.span.startCol)
    ++ (if f.hint = "" then "" else " (did you mean " ++ f.hint ++ "?)")

/-- Why an evaluation ended early. -/
inductive Failure where
  | fault (f : Fault)
  /-- The run was stopped. -/
  | stopped
  /-- An error of a host function. -/
  | host (e : HostError)
  /-- A failure that a host function has put into a context. -/
  | wrapped (context : String) (inner : Failure)
deriving Inhabited

namespace Failure

def message : Failure → String
  | fault f => f.message
  | stopped => "stopped"
  | host e => e.text
  | wrapped context inner => context ++ ": " ++ inner.message

/-- The fault inside a failure. -/
def fault? : Failure → Option Fault
  | fault f => some f
  | wrapped _ inner => inner.fault?
  | _ => none

/-- Whether a failure is, or wraps, that of a stopped run. -/
def isStopped : Failure → Bool
  | stopped => true
  | wrapped _ inner => inner.isStopped
  | _ => false

/-- The error a failure amounts to for a caller that only sees its text. -/
def asHostError : Failure → HostError
  | host e => e
  | wrapped context inner =>
      { text := context ++ ": " ++ inner.message, canceled := inner.asHostError.canceled }
  | e => { text := e.message }

/-- Whether a failure was raised by the evaluation and not by a host function. -/
def isOwn (e : Failure) : Bool := e.fault?.isSome || e.isStopped

/-- Gives the fault inside a failure the frames it was raised in, unless it has them. -/
def withStack (s : Snapshot) : Failure → Failure
  | fault f => fault { f with stack := f.stack.orElse fun _ => some s }
  | wrapped context inner => wrapped context (inner.withStack s)
  | e => e

end Failure

end Pseudocode
