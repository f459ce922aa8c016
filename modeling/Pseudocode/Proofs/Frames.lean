/-
# The identity of frames

A frame is known by its label and its serial number, whatever its variables are.  This file says
what the operations of the store do to the list of frames read in that way: binding a name does
nothing, a call appends one frame, and leaving calls takes frames away from the end.  The global
frame is at the front of the list and stays there.
-/
import Mathlib.Tactic.Lemma
import Pseudocode.Host.Registry

namespace Pseudocode

/-- What tells a frame from the others: its label and its serial number. -/
def Frame.id (f : Frame) : String × Nat := (f.label, f.serial)

namespace Store

/-- The frames by label and serial number, the global one first. -/
def frameIds (s : Store) : List (String × Nat) := s.frames.map Frame.id

lemma frameIds_eq (s : Store) :
    s.frameIds = s.global.id :: (s.calls.map Frame.id).reverse := by
  simp [frameIds, frames]

@[simp] lemma length_frameIds (s : Store) : s.frameIds.length = s.depth := by
  simp [frameIds, frames, s.depth_eq]

/-! ### Binding names -/

lemma frameIds_updateCurrent {s : Store} {f : Frame → Frame} (hf : ∀ x, (f x).id = x.id) :
    (s.updateCurrent f).frameIds = s.frameIds := by
  unfold updateCurrent
  split
  · simp [frameIds_eq, hf]
  · rename_i c cs h
    simp [frameIds_eq, hf, h]

@[simp] lemma frameIds_assign (s : Store) (name : String) (v : Value) :
    (s.assign name v).frameIds = s.frameIds := by
  have hbind : ∀ x : Frame, Frame.id { x with vars := x.vars.insert name v } = x.id :=
    fun _ => rfl
  unfold assign
  split
  · exact frameIds_updateCurrent hbind
  · split
    · simp [frameIds_eq, Frame.id]
    · exact frameIds_updateCurrent hbind

@[simp] lemma frameIds_bindGlobal (s : Store) (name : String) (v : Value) :
    (s.bindGlobal name v).frameIds = s.frameIds := rfl

/-! ### Entering and leaving calls -/

lemma frames_push (s : Store) (label : String) (vars : Bindings Value) :
    (s.push label vars).frames = s.frames ++ [{ label, serial := s.nextSerial, vars }] := by
  simp [frames, push]

/-- Leaving a call takes the last frame away, unless it is the global one. -/
lemma frames_pop (s : Store) : s.pop.frames = s.frames.take (max 1 (s.depth - 1)) := by
  have hdepth := s.depth_eq
  unfold pop pop?
  split
  · rename_i f t h
    split at h
    · simp at h
    · rename_i c cs hcalls
      simp only [Option.some.injEq, Prod.mk.injEq] at h
      obtain ⟨-, rfl⟩ := h
      rw [hcalls, List.length_cons] at hdepth
      have hmax : max 1 (s.depth - 1) = cs.length + 1 := by omega
      rw [hmax]
      simp [frames, hcalls]
  · rename_i h
    split at h
    · rename_i hcalls
      rw [hcalls, List.length_nil] at hdepth
      simp [frames, hcalls, hdepth]
    · simp at h

/-- Cutting the stack keeps the outermost frames, the global one always among them. -/
lemma frames_truncate (s : Store) (depth : Nat) :
    (s.truncate depth).frames = s.frames.take (max 1 depth) := by
  obtain ⟨k, hk⟩ : ∃ k, max 1 depth = k + 1 := ⟨max 1 depth - 1, by omega⟩
  have hdepth := s.depth_eq
  simp only [frames, truncate, hk, List.take_succ_cons, List.cons.injEq, true_and]
  rw [List.take_reverse]
  congr 2
  omega

lemma frameIds_push (s : Store) (label : String) (vars : Bindings Value) :
    (s.push label vars).frameIds = s.frameIds ++ [(label, s.nextSerial)] := by
  simp [frameIds, frames_push, Frame.id]

@[simp] lemma depth_push (s : Store) (label : String) (vars : Bindings Value) :
    (s.push label vars).depth = s.depth + 1 := rfl

lemma frameIds_pop (s : Store) : s.pop.frameIds = s.frameIds.take (max 1 (s.depth - 1)) := by
  rw [frameIds, frames_pop, List.map_take, frameIds]

lemma frameIds_truncate (s : Store) (depth : Nat) :
    (s.truncate depth).frameIds = s.frameIds.take (max 1 depth) := by
  rw [frameIds, frames_truncate, List.map_take, frameIds]

lemma depth_truncate (s : Store) (depth : Nat) :
    (s.truncate depth).depth = min (max 1 depth) s.depth := by
  rw [← length_frameIds, frameIds_truncate, List.length_take, length_frameIds]

end Store

/-- The variables that the host provides are bound in the global frame, and no frame is added. -/
lemma Plugin.frameIds_addVars (plugins : List Plugin) (store : Store) (heap : Heap) :
    (Plugin.addVars plugins (store, heap)).1.frameIds = store.frameIds := by
  have hvars : ∀ (vars : List (String × Value)) (state : Store × Heap),
      (vars.foldl bindCopy state).1.frameIds = state.1.frameIds := by
    intro vars
    induction vars with
    | nil => intro state; rfl
    | cons var rest ih =>
        intro state
        rw [List.foldl_cons, ih]
        simp [bindCopy]
  unfold addVars
  generalize hstate : (store, heap) = state
  have hstore : store.frameIds = state.1.frameIds := by rw [← hstate]
  rw [hstore]
  clear hstate hstore
  induction plugins generalizing state with
  | nil => rfl
  | cons p rest ih => rw [List.foldl_cons, ih, hvars]

end Pseudocode
