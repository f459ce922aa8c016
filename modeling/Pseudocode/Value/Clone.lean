/-
# Copies of values

Copying a value copies every list that can be reached from it, each exactly once, so that the
copy has the same shape, sharing and cycles included, and nothing in common with the value.
-/
import Pseudocode.Value.Heap

namespace Pseudocode

namespace Value

/-- The list a value holds, if it holds one. -/
def listId? : Value → Option ListId
  | list id => some id
  | _ => none

/-- Replaces the list a value holds. -/
def rename (f : ListId → ListId) : Value → Value
  | list id => list (f id)
  | v => v

end Value

namespace Heap

/-- The lists reachable from the pending ones that were not seen yet, in the order of their
first visit, after the ones seen. -/
def reach (h : Heap) : (fuel : Nat) → (pending seen : List ListId) → List ListId
  | _, [], seen => seen.reverse
  | 0, _, seen => seen.reverse
  | fuel + 1, id :: pending, seen =>
      if seen.contains id then h.reach fuel pending seen
      else h.reach fuel ((h.contents id).filterMap Value.listId? ++ pending) (id :: seen)

/-- The number of steps that visiting every list can take: one for each occurrence of a list
in a list, and one for the start. -/
def occurrences (h : Heap) : Nat :=
  h.lists.foldl (fun n o => n + o.length) 1

/-- The lists reachable from a value, in the order of their first visit. -/
def reachable (h : Heap) (v : Value) : List ListId :=
  h.reach (h.occurrences + 1) v.listId?.toList []

/-- The position of a list among the copied ones, counted from the first new identity; a list
that is not copied keeps its identity. -/
def copyOf (base : Nat) (ids : List ListId) (id : ListId) : ListId :=
  if ids.contains id then ⟨base + ids.idxOf id⟩ else id

/-- A copy of a value that shares no list with it. -/
def clone (h : Heap) (v : Value) : Value × Heap :=
  let ids := h.reachable v
  let rename := Value.rename (copyOf h.lists.size ids)
  let copied := ids.foldl (fun acc id =>
    (acc.alloc ((h.contents id).map rename).toArray).2) h
  (rename v, copied)

end Heap

end Pseudocode
