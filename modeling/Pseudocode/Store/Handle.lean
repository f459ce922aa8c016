/-
# Handles

A handle is bound to one name of one frame and stays bound to it when the frame leaves the
stack.  A workbench is a store that keeps the frames it has dropped, so that handles to them
can still be read and written.
-/
import Pseudocode.Store.Basic

namespace Pseudocode

/-- One name of one frame. -/
structure Handle where
  serial : Nat
  name : String
deriving DecidableEq, Repr, Inhabited

/-- A store together with the frames that have left it. -/
structure Workbench where
  store : Store := .empty
  dropped : List Frame := []
deriving Inhabited

namespace Workbench

/-- Every frame there is or was. -/
def frames (w : Workbench) : List Frame := w.store.frames ++ w.dropped

/-- Keeps the outermost `depth` frames and sets the others aside. -/
def truncate (w : Workbench) (depth : Int) : Workbench :=
  let store := w.store.truncate depth.toNat
  { store, dropped := w.store.calls.take (w.store.depth - store.depth) ++ w.dropped }

/-- Removes the innermost frame and sets it aside. -/
def pop? (w : Workbench) : Option (Frame × Workbench) :=
  w.store.pop?.map fun (f, store) => (f, { store, dropped := f :: w.dropped })

/-- The handle of a name that can be read. -/
def resolve? (w : Workbench) (name : String) : Option Handle :=
  if w.store.current.vars.contains name then some ⟨w.store.current.serial, name⟩
  else if w.store.global.vars.contains name then some ⟨w.store.global.serial, name⟩
  else none

/-- The handle of a name, which is created in the current frame where it cannot be read. -/
def resolveOrCreate (w : Workbench) (name : String) (initial : Value) : Handle × Workbench :=
  match w.resolve? name with
  | some r => (r, w)
  | none => (⟨w.store.current.serial, name⟩, { w with store := w.store.assign name initial })

/-- The value a handle is bound to. -/
def get (w : Workbench) (r : Handle) : Value :=
  match w.frames.find? (·.serial == r.serial) with
  | some f => (f.vars.get? r.name).getD .nothing
  | none => .nothing

/-- Writes through a handle. -/
def set (w : Workbench) (r : Handle) (v : Value) : Workbench :=
  let write (f : Frame) : Frame :=
    if f.serial == r.serial then { f with vars := f.vars.insert r.name v } else f
  { store := { w.store with
      global := write w.store.global
      calls := w.store.calls.map write
      depth_eq := by simp [w.store.depth_eq] }
    dropped := w.dropped.map write }

end Workbench

end Pseudocode
