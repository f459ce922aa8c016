/-
# Frames and the store

Variables live in frames.  The store is a stack of frames on top of the global one: a frame is
pushed for each call of a procedure.  A name is looked up in the current frame and then in the
global one, never in the frames between them.
-/
import Pseudocode.Store.Bindings
import Pseudocode.Value.Basic

namespace Pseudocode

/-- One scope: the global one or that of a procedure call.  Each frame of a run has its own
serial number. -/
structure Frame where
  label : String
  serial : Nat := 0
  vars : Bindings Value := {}
deriving DecidableEq, Repr, Inhabited

/-- The label of the global frame. -/
def globalLabel : String := "Global"

/-- The stack of frames: the global frame, and the frames of the calls in progress, the
innermost first.  The number of frames is kept along. -/
structure Store where
  global : Frame := { label := globalLabel }
  calls : List Frame := []
  depth : Nat := 1
  depth_eq : depth = calls.length + 1 := by simp
  /-- The serial number of the next frame. -/
  nextSerial : Nat := 1
deriving Repr

namespace Store

/-- The store that holds just an empty global frame. -/
def empty : Store := {}

instance : Inhabited Store := ⟨empty⟩

/-- The innermost frame. -/
def current (s : Store) : Frame := s.calls.headD s.global

/-- Changes the innermost frame. -/
def updateCurrent (s : Store) (f : Frame → Frame) : Store :=
  match h : s.calls with
  | [] => { s with global := f s.global }
  | c :: cs => { s with calls := f c :: cs, depth_eq := by rw [s.depth_eq, h]; rfl }

/-- The frames, the global one first. -/
def frames (s : Store) : List Frame := s.global :: s.calls.reverse

/-- Adds a frame for a call. -/
def push (s : Store) (label : String) (vars : Bindings Value) : Store :=
  { s with
    calls := { label, serial := s.nextSerial, vars } :: s.calls
    depth := s.depth + 1
    depth_eq := by rw [s.depth_eq]; rfl
    nextSerial := s.nextSerial + 1 }

/-- Removes the innermost frame and returns it.  The global frame is never removed. -/
def pop? (s : Store) : Option (Frame × Store) :=
  match h : s.calls with
  | [] => none
  | c :: cs => some (c, { s with
      calls := cs
      depth := s.depth - 1
      depth_eq := by rw [s.depth_eq, h]; rfl })

/-- The store without its innermost frame; the global frame stays. -/
def pop (s : Store) : Store :=
  match s.pop? with
  | some (_, s) => s
  | none => s

/-- Keeps the outermost `depth` frames, at least the global one. -/
def truncate (s : Store) (depth : Nat) : Store :=
  let calls := s.calls.drop (s.depth - max 1 depth)
  { s with calls, depth := calls.length + 1, depth_eq := rfl }

/-- Whether a name is found in the current or the global frame, and its value. -/
def resolve? (s : Store) (name : String) : Option Value :=
  match s.current.vars.get? name with
  | some v => some v
  | none => s.global.vars.get? name

/-- Binds a name: in the current frame if it is there, else in the global frame if it is there,
else in the current frame. -/
def assign (s : Store) (name : String) (v : Value) : Store :=
  let bind (f : Frame) : Frame := { f with vars := f.vars.insert name v }
  if s.current.vars.contains name then s.updateCurrent bind
  else if s.global.vars.contains name then { s with global := bind s.global }
  else s.updateCurrent bind

/-- Binds a name in the global frame. -/
def bindGlobal (s : Store) (name : String) (v : Value) : Store :=
  { s with global := { s.global with vars := s.global.vars.insert name v } }

/-- The names that can be read from the current frame, ascending. -/
def visible (s : Store) : List String :=
  (s.global.vars.insertAll s.current.vars.entries).names

end Store

end Pseudocode
