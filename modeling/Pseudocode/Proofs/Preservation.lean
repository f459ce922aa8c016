/-
# Lists that a run leaves as they are

The lists that there are when a run begins, and the banks that they occupy, come before those that
the run makes.  The lists and banks behind them are a region, and what lies above the others is
within it.  So a run that begins with new lists only and keeps within the region changes no list
before it.

The main results are

* `Heap.ChangesIn.extends`: changes within the region leave the other lists as they are;
* `Heap.closed_above`, `Store.in_above`: lists above others are closed in the region, and so are
  frames.
-/
import Pseudocode.Proofs.Regions
import Pseudocode.Proofs.Steady

namespace Pseudocode

open Heap (Longer)

variable {h : Heap}

/-! ### The region behind the lists of a heap -/

namespace Region

/-- The lists and banks that come behind those of the heap. -/
def behind (h : Heap) : Region where
  lists id := h.lists.size ≤ id.index
  banks b := h.banks.size ≤ b

lemma admits_behind {g : Heap} (hl : Longer h g) (g' : Heap) : (behind h).Admits g g' where
  lists _ hid _ := hl.lists.trans hid
  banks _ hb _ := hl.banks.trans hb

end Region

open Region (behind)

namespace Heap

variable {g g' : Heap} {id : ListId}

lemma Extends.longer (hx : g.Extends h) : Longer h g := ⟨hx.size_lists_le, hx.size_banks_le⟩

/-! ### Changes behind the lists of a heap -/

lemma prefix_modify {α : Type} {l : List α} {a : Array α} (hl : l <+: a.toList) {i : Nat}
    (hi : l.length ≤ i) (f : α → α) : l <+: (a.modify i f).toList := by
  rw [List.prefix_iff_eq_take] at hl ⊢
  rw [Array.toList_modify, List.take_modify, ← hl, List.modify_eq_self hi]

lemma prefix_push {α : Type} {l : List α} {a : Array α} (hl : l <+: a.toList) (x : α) :
    l <+: (a.push x).toList := by
  rw [Array.toList_push]
  exact hl.trans (List.prefix_append _ _)

/-- A list of the region occupies a bank of the region, and a list that is not known the next
one. -/
lemma Closed.behind_bank (hc : Closed (behind h) g) (hx : g.Extends h)
    (hid : h.lists.size ≤ id.index) : h.banks.size ≤ (g.object id).bank := by
  by_cases hlt : id.index < g.lists.size
  · exact hc.stored id hlt hid
  · rw [object_of_size_le (Nat.le_of_not_lt hlt)]
    exact hx.size_banks_le

lemma Extends.rework (hx : g.Extends h) (hc : Closed (behind h) g) (hid : h.lists.size ≤ id.index)
    (k : Nat → Nat) (f : Array Value → Array Value) : (g.rework id k f).Extends h where
  lists := prefix_modify hx.lists (by simpa using hid) _
  banks := prefix_modify hx.banks (by simpa using hc.behind_bank hx hid) f

lemma Extends.relocate (hx : g.Extends h) (hid : h.lists.size ≤ id.index) (n : Nat)
    (a : Array Value) : (g.relocate id n a).Extends h where
  lists := prefix_modify hx.lists (by simpa using hid) _
  banks := prefix_push hx.banks a

lemma Extends.push (hx : g.Extends h) (hc : Closed (behind h) g) (hid : h.lists.size ≤ id.index)
    (v : Value) : (g.push id v).Extends h := by
  unfold Heap.push
  dsimp only
  split
  · exact hx.rework hc hid (· + 1) fun a => a.setIfInBounds (g.length id) v
  · exact hx.relocate hid _ _

/-- A change to a list of the region leaves the lists before it as they are. -/
lemma ChangeIn.extends (hchange : ChangeIn (behind h) g g') (hc : Closed (behind h) g)
    (hx : g.Extends h) : g'.Extends h := by
  cases hchange with
  | alloc hvs => exact ⟨prefix_push hx.lists _, prefix_push hx.banks _⟩
  | set hid i hv =>
      unfold Heap.set
      dsimp only
      rw [modify_banks_eq_rework]
      exact hx.rework hc hid _ _
  | push hid hv => exact hx.push hc hid _
  | @insert id v hid i hv =>
      -- a cell is appended first, and the list may move to another bank of the region by this
      have hpush : (g.push id .nothing).Extends h := hx.push hc hid .nothing
      have hclosed : Closed (behind h) (g.push id .nothing) :=
        hc.push hid (Value.in_of_listId?_eq_none rfl) (Region.admits_behind hx.longer _)
      unfold Heap.insert
      dsimp only
      rw [modify_banks_eq_rework]
      exact hpush.rework hclosed hid _ _
  | @erase id hid i =>
      exact hx.rework hc hid (· - 1) fun a =>
        a.extract 0 i ++ a.extract (i + 1) (g.length id) ++ a.extract (g.length id - 1) a.size

/-- Changes to lists of the region leave the lists before it as they are. -/
theorem ChangesIn.extends (hchanges : ChangesIn (behind h) g g') (hc : Closed (behind h) g)
    (hx : g.Extends h) : g'.Extends h := by
  have hkept : Closed (behind h) g' ∧ g'.Extends h := by
    induction hchanges with
    | refl => exact ⟨hc, hx⟩
    | tail _ hlast ih =>
        obtain ⟨hc, hx⟩ := ih
        exact ⟨hlast.closed (Region.admits_behind hx.longer _) hc, hlast.extends hc hx⟩
  exact hkept.2

end Heap

/-! ### What lies above other lists -/

lemma Value.in_above (v : Value) : (v.above h).In (behind h) := by
  intro id hid
  cases v with
  | list i =>
      cases hid
      exact Nat.le_add_right _ _
  | _ => cases hid

lemma Frame.in_above (f : Frame) : (f.above h).In (behind h) := by
  intro e he
  simp only [Frame.above, Bindings.map, List.mem_map] at he
  obtain ⟨e', -, rfl⟩ := he
  exact e'.2.in_above

lemma Store.in_above (s : Store) : (s.above h).In (behind h) where
  global := s.global.in_above
  calls f hf := by
    obtain ⟨f', -, rfl⟩ := List.mem_map.mp hf
    exact f'.in_above

lemma Heap.closed_above (g h : Heap) : (g.above h).Closed (behind h) where
  stored id _ hid := by
    obtain ⟨k, hk⟩ := Nat.exists_eq_add_of_le hid
    have habove : id = (⟨k⟩ : ListId).above h := by
      rw [ListId.above, ← hk]
    rw [habove, object_above]
    exact Nat.le_add_right _ _
  holds b hb v hv := by
    obtain ⟨k, rfl⟩ := Nat.exists_eq_add_of_le hb
    rw [cells_above, Array.mem_map] at hv
    obtain ⟨w, -, rfl⟩ := hv
    exact w.in_above

end Pseudocode
