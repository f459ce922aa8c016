/-
# What is stored for lists

A heap is tidy if every list has a bank of its own, in which it fits; the bank may have any number
of cells to spare.  In a tidy heap the operations on lists do to the elements of one list what
they do to a sequence, and leave all other lists as they are, whether the list stays in its bank or
moves to another one.  And they leave the heap tidy.

The main results are

* `Heap.replaced_push`, `Heap.replaced_set`, `Heap.replaced_insert`, `Heap.replaced_erase`: the
  elements of the one list that an operation changes;
* `Heap.sequences_alloc`, `Heap.sequences_clone`: the lists that are new;
* `Heap.mem_reachable_iff`: a copy is made of the lists that can be reached, and of no others.
-/
import Mathlib.Logic.Relation
import Pseudocode.Proofs.Copies

namespace Pseudocode

namespace Heap

variable {h h' h'' : Heap} {id : ListId} {v : Value} {xs ys : List Value}

/-! ### Tidy heaps -/

/-- Every list has a bank of its own, in which it fits. -/
structure Tidy (h : Heap) : Prop where
  stored : ∀ i : ListId, i.index < h.lists.size → (h.object i).bank < h.banks.size
  fits : ∀ i : ListId, i.index < h.lists.size → h.length i ≤ (h.cells (h.object i).bank).size
  apart : ∀ i j : ListId, i.index < h.lists.size → j.index < h.lists.size →
    (h.object i).bank = (h.object j).bank → i = j

/-- The elements of all lists, in the order of their identities. -/
def sequences (h : Heap) : List (List Value) :=
  (List.range h.lists.size).map fun k => h.contents ⟨k⟩

@[simp] lemma length_sequences (h : Heap) : h.sequences.length = h.lists.size := by
  simp [sequences]

/-- An unknown list has no elements. -/
@[simp] lemma getD_sequences (h : Heap) (id : ListId) :
    h.sequences.getD id.index [] = h.contents id := by
  by_cases hid : id.index < h.lists.size
  · simp [sequences, List.getD_eq_getElem?_getD, hid]
  · have hnone : h.sequences[id.index]? = none :=
      List.getElem?_eq_none (by rw [length_sequences]; omega)
    rw [contents_of_size_le (by omega), List.getD_eq_getElem?_getD, hnone]
    rfl

lemma Tidy.length_contents (ht : h.Tidy) (id : ListId) : (h.contents id).length = h.length id := by
  by_cases hid : id.index < h.lists.size
  · simpa [contents, length] using ht.fits id hid
  · rw [contents_of_size_le (by omega)]
    simp [length, object, Array.getD, hid]

/-- What is read of a list are its elements. -/
lemma get?_eq (h : Heap) (id : ListId) (i : Nat) : h.get? id i = (h.contents id)[i]? := by
  unfold get? contents
  dsimp only
  split
  · rename_i hi
    rw [List.getElem?_take_of_lt hi, Array.getElem?_toList]
  · rename_i hi
    rw [List.getElem?_take_eq_none (by omega)]

lemma tidy_empty (slack : Nat → Nat) : ({ slack } : Heap).Tidy where
  stored := fun _ hi => absurd hi (Nat.not_lt_zero _)
  fits := fun _ hi => absurd hi (Nat.not_lt_zero _)
  apart := fun _ _ hi => absurd hi (Nat.not_lt_zero _)

/-! ### Changing one list -/

/-- The list `id` has the elements `xs` now, and the others have stayed as they were. -/
structure Replaced (h : Heap) (id : ListId) (xs : List Value) (h' : Heap) : Prop where
  size : h'.lists.size = h.lists.size
  banks : h.banks.size ≤ h'.banks.size
  others : ∀ j : ListId, j.index < h.lists.size → j ≠ id →
    h'.object j = h.object j ∧ h'.cells (h.object j).bank = h.cells (h.object j).bank
  stored : id.index < h.lists.size → (h'.object id).bank < h'.banks.size
  fits : id.index < h.lists.size → h'.length id ≤ (h'.cells (h'.object id).bank).size
  apart : id.index < h.lists.size → ∀ j : ListId, j.index < h.lists.size → j ≠ id →
    (h'.object id).bank ≠ (h.object j).bank
  own : id.index < h.lists.size → h'.contents id = xs

lemma Replaced.tidy (hr : Replaced h id xs h') (ht : h.Tidy) : h'.Tidy where
  stored := by
    intro i hi
    rw [hr.size] at hi
    by_cases heq : i = id
    · subst heq
      exact hr.stored hi
    · rw [(hr.others i hi heq).1]
      exact Nat.lt_of_lt_of_le (ht.stored i hi) hr.banks
  fits := by
    intro i hi
    rw [hr.size] at hi
    by_cases heq : i = id
    · subst heq
      exact hr.fits hi
    · obtain ⟨hobject, hcells⟩ := hr.others i hi heq
      rw [length, hobject, hcells]
      exact ht.fits i hi
  apart := by
    intro i j hi hj hbank
    rw [hr.size] at hi hj
    by_cases hi' : i = id
    · by_cases hj' : j = id
      · rw [hi', hj']
      · subst hi'
        rw [(hr.others j hj hj').1] at hbank
        exact absurd hbank (hr.apart hi j hj hj')
    · by_cases hj' : j = id
      · subst hj'
        rw [(hr.others i hi hi').1] at hbank
        exact absurd hbank.symm (hr.apart hj i hi hi')
      · rw [(hr.others i hi hi').1, (hr.others j hj hj').1] at hbank
        exact ht.apart i j hi hj hbank

/-- The other lists have the elements that they had. -/
lemma Replaced.contents_ne (hr : Replaced h id xs h') {j : ListId} (hj : j ≠ id) :
    h'.contents j = h.contents j := by
  by_cases hlt : j.index < h.lists.size
  · obtain ⟨hobject, hcells⟩ := hr.others j hlt hj
    simp only [contents, hobject, hcells]
  · have hsize := hr.size
    rw [contents_of_size_le (by omega : h.lists.size ≤ j.index),
      contents_of_size_le (by omega : h'.lists.size ≤ j.index)]

lemma Replaced.sequences (hr : Replaced h id xs h') :
    h'.sequences = h.sequences.set id.index xs := by
  refine List.ext_getElem (by simp [hr.size]) fun k hk hk' => ?_
  simp only [length_sequences, hr.size] at hk
  rw [List.getElem_set]
  split
  · rename_i heq
    subst heq
    simp [Heap.sequences, hr.own hk]
  · rename_i hne
    have hj : (⟨k⟩ : ListId) ≠ id := by
      rintro rfl
      exact hne rfl
    simp [Heap.sequences, hr.contents_ne hj]

lemma Replaced.trans (hr : Replaced h id xs h') (hr' : Replaced h' id ys h'') :
    Replaced h id ys h'' where
  size := hr'.size.trans hr.size
  banks := Nat.le_trans hr.banks hr'.banks
  others := by
    intro j hj hne
    obtain ⟨hobject, hcells⟩ := hr.others j hj hne
    obtain ⟨hobject', hcells'⟩ := hr'.others j (by rwa [hr.size]) hne
    rw [hobject] at hobject' hcells'
    exact ⟨hobject', hcells'.trans hcells⟩
  stored := fun hid => hr'.stored (by rwa [hr.size])
  fits := fun hid => hr'.fits (by rwa [hr.size])
  apart := by
    intro hid j hj hne
    rw [← (hr.others j hj hne).1]
    exact hr'.apart (by rwa [hr.size]) j (by rwa [hr.size]) hne
  own := fun hid => hr'.own (by rwa [hr.size])

/-! ### Working in a bank, and moving to another one -/

/-- The heap after a change to the length and to the bank of a list. -/
def rework (h : Heap) (id : ListId) (g : Nat → Nat) (f : Array Value → Array Value) : Heap :=
  { h with
    lists := h.lists.modify id.index fun o => { o with length := g o.length }
    banks := h.banks.modify (h.object id).bank f }

/-- The heap after moving a list to a new bank. -/
def relocate (h : Heap) (id : ListId) (n : Nat) (a : Array Value) : Heap :=
  { h with
    lists := h.lists.modify id.index fun _ => ⟨h.banks.size, n⟩
    banks := h.banks.push a }

lemma object_of_modify {f : ListObject → ListObject} {j : ListId}
    (hlists : h'.lists = h.lists.modify id.index f) (hj : j.index < h.lists.size) :
    h'.object j = if j = id then f (h.object j) else h.object j := by
  obtain ⟨k⟩ := id
  obtain ⟨l⟩ := j
  have hsame : ((⟨l⟩ : ListId) = ⟨k⟩) ↔ k = l := by simp [eq_comm]
  simp only [object, hlists, Array.getD_eq_getD_getElem?, Array.getElem?_modify, hsame]
  rw [Array.getElem?_eq_getElem hj]
  split
  · rfl
  · rfl

lemma cells_of_modify {b c : Nat} {f : Array Value → Array Value}
    (hbanks : h'.banks = h.banks.modify b f) (hc : c < h.banks.size) :
    h'.cells c = if b = c then f (h.cells c) else h.cells c := by
  simp only [cells, hbanks, Array.getD_eq_getD_getElem?, Array.getElem?_modify]
  split
  · simp [hc]
  · rfl

/-- A list may be changed in its bank as long as it fits. -/
lemma replaced_rework (ht : h.Tidy) {g : Nat → Nat} {f : Array Value → Array Value}
    (hfits : id.index < h.lists.size →
      g (h.length id) ≤ (f (h.cells (h.object id).bank)).size)
    (hxs : id.index < h.lists.size →
      (f (h.cells (h.object id).bank)).toList.take (g (h.length id)) = xs) :
    Replaced h id xs (h.rework id g f) := by
  have hobject : ∀ {j : ListId}, j.index < h.lists.size →
      (h.rework id g f).object j =
        if j = id then { h.object j with length := g (h.object j).length } else h.object j :=
    fun hj => object_of_modify (f := fun o => { o with length := g o.length }) rfl hj
  have hcells : id.index < h.lists.size →
      (h.rework id g f).cells (h.object id).bank = f (h.cells (h.object id).bank) := by
    intro hid
    rw [cells_of_modify (f := f) rfl (ht.stored id hid), if_pos rfl]
  refine ⟨by simp [rework], by simp [rework], ?_, ?_, ?_, ?_, ?_⟩
  · intro j hj hne
    have hbank : (h.object id).bank ≠ (h.object j).bank := by
      intro heq
      by_cases hid : id.index < h.lists.size
      · exact hne (ht.apart id j hid hj heq).symm
      · -- a list that is not known would have the next bank
        have hnext : (h.object id).bank = h.banks.size := by simp [object, Array.getD, hid]
        have hlt := ht.stored j hj
        omega
    refine ⟨by rw [hobject hj, if_neg hne], ?_⟩
    rw [cells_of_modify (f := f) rfl (ht.stored j hj), if_neg hbank]
  · intro hid
    rw [hobject hid, if_pos rfl]
    simpa [rework] using ht.stored id hid
  · intro hid
    rw [length, hobject hid, if_pos rfl]
    dsimp only
    rw [hcells hid]
    exact hfits hid
  · intro hid j hj hne heq
    rw [hobject hid, if_pos rfl] at heq
    exact hne (ht.apart id j hid hj heq).symm
  · intro hid
    simp only [contents, hobject hid, if_true, hcells hid]
    exact hxs hid

/-- A list may be moved to a new bank in which it fits. -/
lemma replaced_relocate (ht : h.Tidy) {n : Nat} {a : Array Value} (hn : n ≤ a.size) :
    Replaced h id (a.toList.take n) (h.relocate id n a) := by
  have hobject : ∀ {j : ListId}, j.index < h.lists.size →
      (h.relocate id n a).object j = if j = id then ⟨h.banks.size, n⟩ else h.object j :=
    fun hj => object_of_modify (f := fun _ => ⟨h.banks.size, n⟩) rfl hj
  have hcells : (h.relocate id n a).cells h.banks.size = a := by
    simp [relocate, cells, Array.getD_eq_getD_getElem?]
  refine ⟨by simp [relocate], by simp [relocate], ?_, ?_, ?_, ?_, ?_⟩
  · intro j hj hne
    refine ⟨by rw [hobject hj, if_neg hne], ?_⟩
    have hbank := ht.stored j hj
    simp [relocate, cells, Array.getD_eq_getD_getElem?, Array.getElem?_push,
      Nat.ne_of_lt hbank]
  · intro hid
    rw [hobject hid, if_pos rfl]
    simp [relocate]
  · intro hid
    rw [length, hobject hid, if_pos rfl, hcells]
    exact hn
  · intro hid j hj hne heq
    rw [hobject hid, if_pos rfl] at heq
    exact absurd (ht.stored j hj) (by rw [← heq]; exact Nat.lt_irrefl _)
  · intro hid
    simp [contents, hobject hid, hcells]

/-! ### The operations on one list -/

/-- A change to the cells of a list leaves its length. -/
lemma modify_banks_eq_rework (h : Heap) (id : ListId) (f : Array Value → Array Value) :
    ({ h with banks := h.banks.modify (h.object id).bank f } : Heap) =
      h.rework id (fun n => n) f := by
  have hlists : (h.lists.modify id.index fun o => { o with length := o.length }) = h.lists := by
    refine Array.ext_getElem? fun k => ?_
    rw [Array.getElem?_modify]
    split
    · simp
    · rfl
  rw [rework, hlists]

/-- Writing an element. -/
theorem replaced_set (ht : h.Tidy) (id : ListId) (i : Nat) (v : Value) :
    Replaced h id ((h.contents id).set i v) (h.set id i v) := by
  unfold set
  dsimp only
  rw [modify_banks_eq_rework]
  refine replaced_rework ht (fun hid => ?_) fun hid => ?_
  · simpa using ht.fits id hid
  · simp [contents, length, List.take_set]

/-- An unknown list fits as well, since it is empty. -/
lemma Tidy.length_le (ht : h.Tidy) (id : ListId) :
    h.length id ≤ (h.cells (h.object id).bank).size := by
  by_cases hid : id.index < h.lists.size
  · exact ht.fits id hid
  · simp [length, object, Array.getD, hid]

/-- Appending an element, whether there is a cell to spare or not. -/
theorem replaced_push (ht : h.Tidy) (id : ListId) (v : Value) :
    Replaced h id (h.contents id ++ [v]) (h.push id v) := by
  have hle := ht.length_le id
  unfold push
  dsimp only
  split
  · rename_i hspare
    have hlt : h.length id < (h.cells (h.object id).bank).size := hspare
    have hlast : ((h.cells (h.object id).bank).toList.set (h.length id) v).take
        (h.length id + 1) = h.contents id ++ [v] := by
      rw [List.take_succ_eq_append_getElem (by simpa using hlt), List.getElem_set_self,
        List.take_set_of_le (Nat.le_refl _)]
      rfl
    refine replaced_rework (g := (· + 1)) (f := fun a => a.setIfInBounds (h.length id) v) ht
      (fun hid => ?_) fun hid => ?_
    · rw [Array.size_setIfInBounds]
      exact hlt
    · rw [Array.toList_setIfInBounds]
      exact hlast
  · -- the elements are put into a new bank, with cells to spare after them
    have hlast : ∀ spare, (((h.cells (h.object id).bank).extract 0 (h.length id)).push v ++
        Array.replicate spare Value.nothing).toList.take (h.length id + 1) =
          h.contents id ++ [v] := by
      intro spare
      rw [Array.toList_append, Array.toList_push, List.take_left' (by simpa using hle)]
      simp [contents, length]
    rw [← hlast]
    exact replaced_relocate ht (by simp [length] at hle ⊢; omega)

/-- The cells of a list, in which there is one to spare, after the elements from a place on have
been moved up. -/
lemma take_moved_up {l : List Value} {n i : Nat} (hn : n < l.length) (hi : i ≤ n) (v : Value) :
    (l.take i ++ [v] ++ (l.drop i).take (n - i) ++ l.drop (n + 1)).take (n + 1) =
      (l.take n).take i ++ [v] ++ (l.take n).drop i := by
  have hlength : (l.take i ++ [v] ++ (l.drop i).take (n - i)).length = n + 1 := by
    simp
    omega
  rw [List.take_left' hlength, List.take_take, Nat.min_eq_left hi, List.drop_take]

/-- The cells of a list after the elements from a place on have been moved down. -/
lemma take_moved_down {l : List Value} {n i : Nat} (hn : n ≤ l.length) (hi : i < n) :
    (l.take i ++ (l.drop (i + 1)).take (n - (i + 1)) ++ l.drop (n - 1)).take (n - 1) =
      (l.take n).eraseIdx i := by
  have hlength : (l.take i ++ (l.drop (i + 1)).take (n - (i + 1))).length = n - 1 := by
    simp
    omega
  rw [List.take_left' hlength, List.eraseIdx_eq_take_drop_succ, List.take_take,
    Nat.min_eq_left (Nat.le_of_lt hi), List.drop_take]

lemma toList_extract_size (a : Array Value) (n : Nat) :
    (a.extract n a.size).toList = a.toList.drop n := by
  rw [Array.toList_extract, List.extract_eq_take_drop, List.take_of_length_le (by simp)]

/-- After an insertion, wherever it is made, the list still fits. -/
lemma fits_insert (ht : h.Tidy) (id : ListId) (i : Nat) (v : Value) :
    let h' := h.push id .nothing
    let a := h'.cells (h'.object id).bank
    h'.length id ≤ ((a.extract 0 i).push v ++ a.extract i ((h'.object id).length - 1) ++
      a.extract (h'.object id).length a.size).size := by
  intro h' a
  have hle : h'.length id ≤ a.size := ((replaced_push ht id .nothing).tidy ht).length_le id
  have hobject : (h'.object id).length = h'.length id := rfl
  simp only [Array.size_append, Array.size_push, Array.size_extract]
  omega

/-- Inserting an element: those from its place on are moved up. -/
theorem replaced_insert (ht : h.Tidy) (id : ListId) {i : Nat} (hi : i ≤ h.length id) (v : Value) :
    Replaced h id ((h.contents id).take i ++ [v] ++ (h.contents id).drop i) (h.insert id i v) := by
  have hpush := replaced_push ht id .nothing
  have ht' := hpush.tidy ht
  unfold insert
  dsimp only
  rw [modify_banks_eq_rework]
  refine hpush.trans (replaced_rework ht' (fun _ => fits_insert ht id i v) fun hid => ?_)
  -- the list is one longer now, and what it has in its last cell is overwritten
  rw [hpush.size] at hid
  have hown := hpush.own hid
  have hlength : (h.push id .nothing).length id = h.length id + 1 := by
    rw [← ht'.length_contents, hown, List.length_append, ht.length_contents]
    rfl
  have hle := ht'.length_le id
  rw [hlength] at hle
  have hbefore : ((h.push id .nothing).cells
      ((h.push id .nothing).object id).bank).toList.take (h.length id) = h.contents id := by
    have hprefix := congrArg (List.take (h.length id)) hown
    rw [contents, ← length, hlength, List.take_take, Nat.min_eq_left (Nat.le_succ _),
      List.take_left' (ht.length_contents id)] at hprefix
    exact hprefix
  have hup := take_moved_up (l := ((h.push id .nothing).cells
    ((h.push id .nothing).object id).bank).toList) (by rw [Array.length_toList]; exact hle) hi v
  rw [hbefore] at hup
  rw [← hup, ← length, hlength]
  simp only [Array.toList_append, toList_extract_size]
  simp only [Array.toList_push, Array.toList_extract, List.extract_eq_take_drop, Nat.sub_zero,
    List.drop_zero, Nat.add_sub_cancel]

/-- After a removal, wherever it is made, the list still fits. -/
lemma fits_erase (ht : h.Tidy) (id : ListId) (i : Nat) :
    let a := h.cells (h.object id).bank
    h.length id - 1 ≤ (a.extract 0 i ++ a.extract (i + 1) (h.length id) ++
      a.extract (h.length id - 1) a.size).size := by
  intro a
  have hle : h.length id ≤ a.size := ht.length_le id
  simp only [Array.size_append, Array.size_extract]
  omega

/-- Removing an element: those after it are moved down. -/
theorem replaced_erase (ht : h.Tidy) (id : ListId) {i : Nat} (hi : i < h.length id) :
    Replaced h id ((h.contents id).eraseIdx i) (h.erase id i) := by
  have hle := ht.length_le id
  refine replaced_rework (g := (· - 1)) (f := fun a =>
    a.extract 0 i ++ a.extract (i + 1) (h.length id) ++ a.extract (h.length id - 1) a.size) ht
    (fun _ => fits_erase ht id i) fun _ => ?_
  have hdown := take_moved_down (l := (h.cells (h.object id).bank).toList) (by simpa using hle) hi
  simp only [Array.toList_append, toList_extract_size]
  simp only [Array.toList_extract, List.extract_eq_take_drop, Nat.sub_zero, List.drop_zero]
  exact hdown

/-! ### Tidy heaps stay tidy -/

lemma tidy_insert (ht : h.Tidy) (id : ListId) (i : Nat) (v : Value) : (h.insert id i v).Tidy := by
  have ht' := (replaced_push ht id .nothing).tidy ht
  unfold insert
  dsimp only
  rw [modify_banks_eq_rework]
  exact (replaced_rework ht' (fun _ => fits_insert ht id i v) fun _ => rfl).tidy ht'

lemma tidy_erase (ht : h.Tidy) (id : ListId) (i : Nat) : (h.erase id i).Tidy := by
  have hrework : Replaced h id _ (h.erase id i) :=
    replaced_rework (g := (· - 1)) (f := fun a =>
      a.extract 0 i ++ a.extract (i + 1) (h.length id) ++ a.extract (h.length id - 1) a.size) ht
      (fun _ => fits_erase ht id i) fun _ => rfl
  exact hrework.tidy ht

/-! ### New lists -/

/-- The lists that were there are as they were, and the new one has a bank of its own. -/
lemma object_alloc (vs : Array Value) {j : ListId} (hj : j.index < (h.alloc vs).2.lists.size) :
    j.index < h.lists.size ∧ (h.alloc vs).2.object j = h.object j ∨
      j.index = h.lists.size ∧ (h.alloc vs).2.object j = ⟨h.banks.size, vs.size⟩ := by
  simp only [alloc, Array.size_push] at hj
  by_cases hlt : j.index < h.lists.size
  · refine .inl ⟨hlt, ?_⟩
    simp [alloc, object, Array.getD_eq_getD_getElem?, Array.getElem?_push, Nat.ne_of_lt hlt, hlt]
  · have heq : j.index = h.lists.size := by omega
    refine .inr ⟨heq, ?_⟩
    simp [alloc, object, Array.getD_eq_getD_getElem?, heq]

lemma cells_alloc_of_lt (vs : Array Value) {b : Nat} (hb : b < h.banks.size) :
    (h.alloc vs).2.cells b = h.cells b := by
  simp [alloc, cells, Array.getD_eq_getD_getElem?, Array.getElem?_push, Nat.ne_of_lt hb]

lemma cells_alloc_last (h : Heap) (vs : Array Value) :
    (h.alloc vs).2.cells h.banks.size = vs := by
  simp [alloc, cells, Array.getD_eq_getD_getElem?]

lemma tidy_alloc (ht : h.Tidy) (vs : Array Value) : (h.alloc vs).2.Tidy where
  stored := by
    intro j hj
    have hbanks : (h.alloc vs).2.banks.size = h.banks.size + 1 := by simp [alloc]
    rw [hbanks]
    rcases object_alloc vs hj with ⟨hlt, hobject⟩ | ⟨-, hobject⟩
    · rw [hobject]
      exact Nat.lt_succ_of_lt (ht.stored j hlt)
    · rw [hobject]
      exact Nat.lt_succ_self _
  fits := by
    intro j hj
    rcases object_alloc vs hj with ⟨hlt, hobject⟩ | ⟨-, hobject⟩
    · rw [length, hobject, cells_alloc_of_lt vs (ht.stored j hlt)]
      exact ht.fits j hlt
    · rw [length, hobject, cells_alloc_last]
  apart := by
    intro i j hi hj hbank
    rcases object_alloc vs hi with ⟨hi, hi'⟩ | ⟨hi, hi'⟩
    · rcases object_alloc vs hj with ⟨hj, hj'⟩ | ⟨hj, hj'⟩
      · rw [hi', hj'] at hbank
        exact ht.apart i j hi hj hbank
      · rw [hi', hj'] at hbank
        exact absurd (ht.stored i hi) (by rw [hbank]; exact Nat.lt_irrefl _)
    · rcases object_alloc vs hj with ⟨hj, hj'⟩ | ⟨hj, hj'⟩
      · rw [hi', hj'] at hbank
        exact absurd (ht.stored j hj) (by rw [← hbank]; exact Nat.lt_irrefl _)
      · cases i
        cases j
        simp_all

/-- A new list comes after the others, which stay as they were. -/
theorem sequences_alloc (ht : h.Tidy) (vs : Array Value) :
    (h.alloc vs).2.sequences = h.sequences ++ [vs.toList] := by
  have hold : ∀ k, k < h.lists.size → (h.alloc vs).2.contents ⟨k⟩ = h.contents ⟨k⟩ := by
    intro k hk
    have hk' : (⟨k⟩ : ListId).index < (h.alloc vs).2.lists.size := by simp [alloc]; omega
    rcases object_alloc vs hk' with ⟨hlt, hobject⟩ | ⟨heq, -⟩
    · simp only [contents, hobject, cells_alloc_of_lt vs (ht.stored ⟨k⟩ hlt)]
    · simp only at heq
      omega
  have hnew : (h.alloc vs).2.contents ⟨h.lists.size⟩ = vs.toList := by
    have hk' : (⟨h.lists.size⟩ : ListId).index < (h.alloc vs).2.lists.size := by simp [alloc]
    rcases object_alloc vs hk' with ⟨hlt, -⟩ | ⟨-, hobject⟩
    · exact absurd hlt (Nat.lt_irrefl _)
    · simp [contents, hobject, cells_alloc_last]
  have hsize : (h.alloc vs).2.lists.size = h.lists.size + 1 := by simp [alloc]
  rw [sequences, hsize, List.range_succ, List.map_append, List.map_singleton, hnew]
  congr 1
  exact List.map_congr_left fun k hk => hold k (List.mem_range.mp hk)

/-- Copies of lists come after the others, in the order in which they are made. -/
lemma sequences_foldl_alloc (ht : h.Tidy) (f : ListId → List Value) (ids : List ListId) :
    (ids.foldl (fun acc id => (acc.alloc (f id).toArray).2) h).Tidy ∧
      (ids.foldl (fun acc id => (acc.alloc (f id).toArray).2) h).sequences =
        h.sequences ++ ids.map f := by
  induction ids generalizing h with
  | nil => exact ⟨ht, by simp⟩
  | cons id ids ih =>
      obtain ⟨htidy, hsequences⟩ := ih (tidy_alloc ht (f id).toArray)
      refine ⟨htidy, ?_⟩
      rw [List.foldl_cons, hsequences, sequences_alloc ht]
      simp

lemma tidy_clone (ht : h.Tidy) (v : Value) : (h.clone v).2.Tidy :=
  (sequences_foldl_alloc ht _ _).1

theorem sequences_clone (ht : h.Tidy) (v : Value) :
    (h.clone v).2.sequences = h.sequences ++ (h.reachable v).map fun id =>
      (h.contents id).map (Value.rename (copyOf h.lists.size (h.reachable v))) :=
  (sequences_foldl_alloc ht _ _).2

/-! ### The lists that are copied -/

lemma nodup_reach (h : Heap) (fuel : Nat) {pending seen : List ListId} (hseen : seen.Nodup) :
    (h.reach fuel pending seen).Nodup := by
  fun_induction Heap.reach h fuel pending seen with
  | case1 fuel seen => exact List.nodup_reverse.mpr hseen
  | case2 pending seen => exact List.nodup_reverse.mpr hseen
  | case3 fuel id pending seen hid ih => exact ih hseen
  | case4 fuel id pending seen hid ih =>
      exact ih (List.nodup_cons.mpr ⟨by simpa using hid, hseen⟩)

/-- One list is an element of another. -/
def Holds (ls : List (List Value)) (i j : ListId) : Prop := .list j ∈ ls.getD i.index []

/-- A list can be reached from a value: the value holds it, or it is an element of one that can be
reached. -/
def Reaches (ls : List (List Value)) (v : Value) (j : ListId) : Prop :=
  ∃ i, v = .list i ∧ Relation.ReflTransGen (Holds ls) i j

/-- Only lists that can be reached are visited. -/
lemma reach_sound (h : Heap) {v : Value} (fuel : Nat) {pending seen : List ListId}
    (hpending : ∀ i ∈ pending, Reaches h.sequences v i)
    (hseen : ∀ i ∈ seen, Reaches h.sequences v i) :
    ∀ i ∈ h.reach fuel pending seen, Reaches h.sequences v i := by
  fun_induction Heap.reach h fuel pending seen with
  | case1 fuel seen => simpa using hseen
  | case2 pending seen => simpa using hseen
  | case3 fuel id pending seen hid ih =>
      exact ih (fun i hi => hpending i (List.mem_cons_of_mem _ hi)) hseen
  | case4 fuel id pending seen hid ih =>
      obtain ⟨hid, hpending⟩ := List.forall_mem_cons.mp hpending
      refine ih (fun i hi => ?_) (List.forall_mem_cons.mpr ⟨hid, hseen⟩)
      rcases List.mem_append.mp hi with hi | hi
      · obtain ⟨w, hw, hi⟩ := List.mem_filterMap.mp hi
        obtain ⟨start, hv, hpath⟩ := hid
        refine ⟨start, hv, hpath.tail ?_⟩
        cases w with
        | list j =>
            cases hi
            rwa [Holds, getD_sequences]
        | _ => cases hi
      · exact hpending i hi

/-- The lists that are copied with a value are those that can be reached from it, each once. -/
theorem mem_reachable_iff (h : Heap) (v : Value) :
    (h.reachable v).Nodup ∧ ∀ j, j ∈ h.reachable v ↔ Reaches h.sequences v j := by
  refine ⟨nodup_reach h _ List.nodup_nil, fun j => ⟨fun hj => ?_, ?_⟩⟩
  · refine reach_sound h _ (fun i hi => ?_) (by simp) j hj
    cases v with
    | list k =>
        obtain rfl : i = k := by simpa [Value.listId?] using hi
        exact ⟨i, rfl, .refl⟩
    | _ => simp [Value.listId?] at hi
  · rintro ⟨i, rfl, hpath⟩
    obtain ⟨hown, hclosed⟩ := mem_reachable h (.list i)
    induction hpath with
    | refl => exact hown i rfl
    | tail _ hstep ih =>
        rw [Holds, getD_sequences] at hstep
        exact hclosed _ ih _ hstep _ rfl

end Heap

end Pseudocode
