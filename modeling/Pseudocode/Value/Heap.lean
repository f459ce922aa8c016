/-
# List objects

A list object occupies the first cells of a bank of cells, which may be longer than the list.
Changing a list works on its bank in place; a list whose cells are all used moves to a larger
bank when it grows, and the old bank stays as it was.  How many cells it gets there beyond those
that it needs is up to the storage.

A loop over a list keeps a cursor: the bank and the length the list had when the loop began.
It therefore sees what is written into that bank later, but not what happens to a list that
has moved.
-/
import Pseudocode.Value.Basic

namespace Pseudocode

/-- Where a list object keeps its elements: the first `length` cells of a bank. -/
structure ListObject where
  bank : Nat
  length : Nat
deriving DecidableEq, Repr, Inhabited

/-- All list objects and all banks of cells. -/
structure Heap where
  lists : Array ListObject := #[]
  banks : Array (Array Value) := #[]
  /-- How many cells a list that outgrows so many gets beyond those that it needs. -/
  slack : Nat → Nat := fun n => n - 1
deriving Inhabited

namespace Heap

/-- The place of a list; an unknown identity is an empty list. -/
def object (h : Heap) (id : ListId) : ListObject := h.lists.getD id.index ⟨h.banks.size, 0⟩

/-- The cells of a bank; an unknown bank is empty. -/
def cells (h : Heap) (bank : Nat) : Array Value := h.banks.getD bank #[]

def length (h : Heap) (id : ListId) : Nat := (h.object id).length

/-- The elements of a list. -/
def contents (h : Heap) (id : ListId) : List Value :=
  let o := h.object id
  (h.cells o.bank).toList.take o.length

/-- A new list with the given elements, which fill its cells. -/
def alloc (h : Heap) (vs : Array Value) : ListId × Heap :=
  (⟨h.lists.size⟩,
   { h with lists := h.lists.push ⟨h.banks.size, vs.size⟩, banks := h.banks.push vs })

/-- The element at an index counted from zero. -/
def get? (h : Heap) (id : ListId) (i : Nat) : Option Value :=
  let o := h.object id
  if i < o.length then (h.cells o.bank)[i]? else none

/-- Overwrites the element at an index counted from zero. -/
def set (h : Heap) (id : ListId) (i : Nat) (v : Value) : Heap :=
  let o := h.object id
  { h with banks := h.banks.modify o.bank fun a => a.setIfInBounds i v }

/-- Appends an element. -/
def push (h : Heap) (id : ListId) (v : Value) : Heap :=
  let o := h.object id
  let capacity := (h.cells o.bank).size
  if o.length < capacity then
    { h with
      lists := h.lists.modify id.index fun o => { o with length := o.length + 1 }
      banks := h.banks.modify o.bank fun a => a.setIfInBounds o.length v }
  else
    let spare := Array.replicate (h.slack capacity) .nothing
    let cells := ((h.cells o.bank).extract 0 o.length).push v ++ spare
    { h with
      lists := h.lists.modify id.index fun _ => ⟨h.banks.size, o.length + 1⟩
      banks := h.banks.push cells }

/-- Inserts an element before the one at an index counted from zero, at most the length. -/
def insert (h : Heap) (id : ListId) (i : Nat) (v : Value) : Heap :=
  let h := h.push id .nothing
  let o := h.object id
  { h with banks := h.banks.modify o.bank fun a =>
      (a.extract 0 i).push v ++ a.extract i (o.length - 1) ++ a.extract o.length a.size }

/-- Removes the element at an index counted from zero.  The elements after it move down, and
the last used cell keeps its value. -/
def erase (h : Heap) (id : ListId) (i : Nat) : Heap :=
  let o := h.object id
  { h with
    lists := h.lists.modify id.index fun o => { o with length := o.length - 1 }
    banks := h.banks.modify o.bank fun a =>
      a.extract 0 i ++ a.extract (i + 1) o.length ++ a.extract (o.length - 1) a.size }

end Heap

/-- What a loop over a list keeps: the bank and the length from when it began. -/
structure Cursor where
  bank : Nat
  length : Nat
deriving DecidableEq, Repr, Inhabited

namespace Cursor

/-- A cursor over a list as it is now. -/
def start (h : Heap) (id : ListId) : Cursor :=
  let o := h.object id
  ⟨o.bank, o.length⟩

/-- The value a cursor finds at an index, `none` past its length. -/
def read? (c : Cursor) (h : Heap) (i : Nat) : Option Value :=
  if i < c.length then some ((h.cells c.bank).getD i .nothing) else none

end Cursor

end Pseudocode
