/-
# Copies above other lists

A value is copied by visiting the lists that can be reached from it.  The number of steps for the
visit is bounded by the number of elements of all lists, which is enough to come to its end: each
list is visited once, and each of its elements is looked at once.  So the lists found are closed:
with a list, they contain the lists that it holds.

It follows that the copy does not depend on what else there is in the heap.  Above other lists, it
is the copy that would be made without them.

The main results are

* `Heap.mem_reachable`: the lists found are closed;
* `Heap.Extends.reachable`: further lists in the heap make no difference to what is found;
* `Heap.clone_above`: nor do they to the copy.
-/
import Mathlib.Algebra.GroupWithZero.Nat
import Mathlib.Algebra.Order.BigOperators.Group.Finset
import Pseudocode.Proofs.Overlay

namespace Pseudocode

namespace Heap

variable {h h₀ h₁ : Heap} {id : ListId} {v : Value}

/-! ### Heaps that hold the lists of another -/

/-- Every list that the value holds is known. -/
def Knows (h : Heap) (v : Value) : Prop := ∀ id, v.listId? = some id → id.index < h.lists.size

instance (h : Heap) (v : Value) : Decidable (h.Knows v) :=
  inferInstanceAs (Decidable (∀ id ∈ v.listId?, id.index < h.lists.size))

/-- Every list has a bank, and the lists that are elements of lists are known. -/
structure WellFormed (h : Heap) : Prop where
  bank : ∀ o ∈ h.lists.toList, o.bank < h.banks.size
  known : ∀ a ∈ h.banks.toList, ∀ v ∈ a.toList, h.Knows v

instance (h : Heap) : Decidable h.WellFormed :=
  decidable_of_iff
    ((∀ o ∈ h.lists.toList, o.bank < h.banks.size) ∧
      ∀ a ∈ h.banks.toList, ∀ v ∈ a.toList, h.Knows v)
    ⟨fun ⟨hbank, hknown⟩ => ⟨hbank, hknown⟩, fun ⟨hbank, hknown⟩ => ⟨hbank, hknown⟩⟩

/-- The heap has the lists of another one, and has left them as they are. -/
structure Extends (h h₀ : Heap) : Prop where
  lists : h₀.lists.toList <+: h.lists.toList
  banks : h₀.banks.toList <+: h.banks.toList

instance (h h₀ : Heap) : Decidable (h.Extends h₀) :=
  decidable_of_iff
    (h₀.lists.toList <+: h.lists.toList ∧ h₀.banks.toList <+: h.banks.toList)
    ⟨fun ⟨hlists, hbanks⟩ => ⟨hlists, hbanks⟩, fun ⟨hlists, hbanks⟩ => ⟨hlists, hbanks⟩⟩

lemma Extends.refl (h : Heap) : h.Extends h := ⟨List.prefix_rfl, List.prefix_rfl⟩

lemma Extends.trans (hx : h.Extends h₁) (hx' : h₁.Extends h₀) : h.Extends h₀ :=
  ⟨hx'.lists.trans hx.lists, hx'.banks.trans hx.banks⟩

lemma extends_above (g h : Heap) : (g.above h).Extends h := by
  constructor
  · simp [above]
  · simp [above]

lemma object_of_lt (hid : id.index < h.lists.size) :
    h.object id ∈ h.lists.toList ∧ h.lists.toList[id.index]? = some (h.object id) := by
  have hobject : h.object id = h.lists[id.index] := by
    simp [object, Array.getD, hid]
  rw [hobject]
  exact ⟨by simp, by simp [hid]⟩

lemma cells_of_lt {bank : Nat} (hbank : bank < h.banks.size) :
    h.cells bank ∈ h.banks.toList ∧ h.banks.toList[bank]? = some (h.cells bank) := by
  have hcells : h.cells bank = h.banks[bank] := by
    simp [cells, Array.getD, hbank]
  rw [hcells]
  exact ⟨by simp, by simp [hbank]⟩

lemma Extends.size_lists_le (hx : h.Extends h₀) : h₀.lists.size ≤ h.lists.size := by
  simpa using hx.lists.length_le

lemma Extends.size_banks_le (hx : h.Extends h₀) : h₀.banks.size ≤ h.banks.size := by
  simpa using hx.banks.length_le

lemma Extends.object (hx : h.Extends h₀) (hid : id.index < h₀.lists.size) :
    h.object id = h₀.object id := by
  obtain ⟨t, ht⟩ := hx.lists
  have hsome := (object_of_lt (Nat.lt_of_lt_of_le hid hx.size_lists_le)).2
  rw [← ht, List.getElem?_append_left (by simpa using hid), (object_of_lt hid).2] at hsome
  exact (Option.some.inj hsome).symm

lemma Extends.cells (hx : h.Extends h₀) {bank : Nat} (hbank : bank < h₀.banks.size) :
    h.cells bank = h₀.cells bank := by
  obtain ⟨t, ht⟩ := hx.banks
  have hsome := (cells_of_lt (Nat.lt_of_lt_of_le hbank hx.size_banks_le)).2
  rw [← ht, List.getElem?_append_left (by simpa using hbank), (cells_of_lt hbank).2] at hsome
  exact (Option.some.inj hsome).symm

/-- A known list has the same elements in every heap that has left it as it is. -/
lemma Extends.contents (hx : h.Extends h₀) (hw : h₀.WellFormed)
    (hid : id.index < h₀.lists.size) : h.contents id = h₀.contents id := by
  have hbank := hw.bank _ (object_of_lt hid).1
  simp only [Heap.contents, hx.object hid, hx.cells hbank]

/-- The elements of lists are known. -/
lemma WellFormed.contents (hw : h.WellFormed) (hv : v ∈ h.contents id) : h.Knows v := by
  by_cases hid : id.index < h.lists.size
  · have hbank := hw.bank _ (object_of_lt hid).1
    exact hw.known _ (cells_of_lt hbank).1 v (List.mem_of_mem_take hv)
  · rw [contents_of_size_le (by omega)] at hv
    simp at hv

/-- The lists that are elements of a list. -/
def children (h : Heap) (id : ListId) : List ListId := (h.contents id).filterMap Value.listId?

lemma WellFormed.children (hw : h.WellFormed) {j : ListId} (hj : j ∈ h.children id) :
    j.index < h.lists.size := by
  obtain ⟨v, hv, hj⟩ := List.mem_filterMap.mp hj
  exact hw.contents hv j hj

/-! ### The end of a visit -/

/-- The number of elements of the lists that have not been seen. -/
def unvisited (h : Heap) (seen : List ListId) : Nat :=
  ∑ i ∈ Finset.range h.lists.size,
    if (⟨i⟩ : ListId) ∈ seen then 0 else (h.contents ⟨i⟩).length

lemma unvisited_cons {seen : List ListId} (hid : id ∉ seen) :
    h.unvisited (id :: seen) + (h.contents id).length ≤ h.unvisited seen := by
  obtain ⟨k⟩ := id
  by_cases hlt : k < h.lists.size
  · have hmem : k ∈ Finset.range h.lists.size := Finset.mem_range.mpr hlt
    unfold unvisited
    rw [← Finset.add_sum_erase _ _ hmem, ← Finset.add_sum_erase _ _ hmem]
    have hrest : ∀ i ∈ (Finset.range h.lists.size).erase k,
        (if (⟨i⟩ : ListId) ∈ ⟨k⟩ :: seen then 0 else (h.contents ⟨i⟩).length) =
          if (⟨i⟩ : ListId) ∈ seen then 0 else (h.contents ⟨i⟩).length := by
      intro i hi
      have hne : i ≠ k := (Finset.mem_erase.mp hi).1
      simp [hne]
    rw [Finset.sum_congr rfl hrest]
    simp only [List.mem_cons, true_or, if_true, hid, if_false]
    omega
  · rw [contents_of_size_le (Nat.le_of_not_lt hlt)]
    show h.unvisited (⟨k⟩ :: seen) ≤ h.unvisited seen
    unfold unvisited
    refine Finset.sum_le_sum fun i _ => ?_
    by_cases hi : (⟨i⟩ : ListId) ∈ seen
    · simp [hi]
    · simp only [List.mem_cons, hi, or_false, if_false]
      split
      · exact Nat.zero_le _
      · exact Nat.le_refl _

lemma occurrences_eq (h : Heap) :
    h.occurrences = 1 + (h.lists.toList.map ListObject.length).sum := by
  have hfold : ∀ (l : List ListObject) (n : Nat),
      l.foldl (fun n o => n + o.length) n = n + (l.map ListObject.length).sum := by
    intro l
    induction l with
    | nil => exact fun n => rfl
    | cons o l ih =>
        intro n
        rw [List.foldl_cons, ih, List.map_cons, List.sum_cons]
        omega
  rw [occurrences, ← Array.foldl_toList, hfold]

lemma unvisited_nil_lt (h : Heap) : h.unvisited [] < h.occurrences := by
  have hle : h.unvisited [] ≤ ∑ i ∈ Finset.range h.lists.size, (h.object ⟨i⟩).length := by
    refine Finset.sum_le_sum fun i _ => ?_
    simp only [List.not_mem_nil, if_false, contents, List.length_take]
    exact Nat.min_le_left _ _
  have hsum : ∑ i ∈ Finset.range h.lists.size, (h.object ⟨i⟩).length =
      (h.lists.toList.map ListObject.length).sum := by
    show ((List.range h.lists.size).map fun i => (h.object ⟨i⟩).length).sum = _
    congr 1
    refine List.ext_getElem (by simp) fun i hi hi' => ?_
    simp only [List.length_map, List.length_range] at hi
    simp [object, Array.getD, hi]
  rw [occurrences_eq]
  omega

lemma reach_nil (h : Heap) (fuel : Nat) (seen : List ListId) :
    h.reach fuel [] seen = seen.reverse := by
  cases fuel with
  | zero => rfl
  | succ fuel => rfl

/-- What is left to do after the first of the pending lists. -/
lemma length_children_append_le {fuel : Nat} {pending seen : List ListId} (hid : id ∉ seen)
    (hfuel : (id :: pending).length + h.unvisited seen ≤ fuel + 1) :
    (h.children id ++ pending).length + h.unvisited (id :: seen) ≤ fuel := by
  have hchildren : (h.children id).length ≤ (h.contents id).length :=
    List.length_filterMap_le _ _
  have hunvisited := unvisited_cons (h := h) hid
  simp only [List.length_append, List.length_cons] at hfuel ⊢
  omega

/-- More steps than enough make no difference. -/
lemma reach_succ {fuel : Nat} {pending seen : List ListId}
    (hfuel : pending.length + h.unvisited seen ≤ fuel) :
    h.reach (fuel + 1) pending seen = h.reach fuel pending seen := by
  induction fuel generalizing pending seen with
  | zero =>
      obtain rfl : pending = [] := List.eq_nil_of_length_eq_zero (by omega)
      rfl
  | succ fuel ih =>
      cases pending with
      | nil => rfl
      | cons id pending =>
          rw [reach, reach]
          split
          · refine ih ?_
            simp only [List.length_cons] at hfuel
            omega
          · rename_i hnew
            exact ih (length_children_append_le (by simpa using hnew) hfuel)

lemma reach_add {fuel : Nat} {pending seen : List ListId}
    (hfuel : pending.length + h.unvisited seen ≤ fuel) (k : Nat) :
    h.reach (fuel + k) pending seen = h.reach fuel pending seen := by
  induction k with
  | zero => rfl
  | succ k ih => rw [← Nat.add_assoc, reach_succ (by omega), ih]

/-- With enough steps, the lists found are closed, save for those that had been seen before. -/
lemma reach_closed {fuel : Nat} {pending seen : List ListId}
    (hfuel : pending.length + h.unvisited seen ≤ fuel) :
    (∀ j, j ∈ pending ∨ j ∈ seen → j ∈ h.reach fuel pending seen) ∧
      ∀ i ∈ h.reach fuel pending seen, i ∈ seen ∨
        ∀ j ∈ h.children i, j ∈ h.reach fuel pending seen := by
  induction fuel generalizing pending seen with
  | zero =>
      obtain rfl : pending = [] := List.eq_nil_of_length_eq_zero (by omega)
      rw [reach_nil]
      exact ⟨by simp, fun i hi => .inl (by simpa using hi)⟩
  | succ fuel ih =>
      cases pending with
      | nil =>
          rw [reach_nil]
          exact ⟨by simp, fun i hi => .inl (by simpa using hi)⟩
      | cons id pending =>
          rw [reach]
          split
          · -- the list has been visited, and the next one is taken up
            rename_i hseen
            have hid : id ∈ seen := by simpa using hseen
            have hfuel' : pending.length + h.unvisited seen ≤ fuel := by
              simp only [List.length_cons] at hfuel
              omega
            obtain ⟨hmem, hclosed⟩ := ih hfuel'
            refine ⟨?_, hclosed⟩
            rintro j (hj | hj)
            · rcases List.mem_cons.mp hj with rfl | hj
              · exact hmem j (.inr hid)
              · exact hmem j (.inl hj)
            · exact hmem j (.inr hj)
          · -- the lists that it holds are put before the pending ones, so they will be found
            rename_i hnew
            obtain ⟨hmem, hclosed⟩ :=
              ih (length_children_append_le (by simpa using hnew) hfuel)
            constructor
            · rintro j (hj | hj)
              · rcases List.mem_cons.mp hj with rfl | hj
                · exact hmem j (.inr List.mem_cons_self)
                · exact hmem j (.inl (List.mem_append_right _ hj))
              · exact hmem j (.inr (List.mem_cons_of_mem _ hj))
            · intro i hi
              rcases hclosed i hi with hi | hi
              · rcases List.mem_cons.mp hi with rfl | hi
                · exact .inr fun j hj => hmem j (.inl (List.mem_append_left _ hj))
                · exact .inl hi
              · exact .inr hi

lemma length_listId?_le (v : Value) : v.listId?.toList.length ≤ 1 := by
  cases v.listId? with
  | none => exact Nat.zero_le 1
  | some id => exact Nat.le_refl 1

lemma enough_fuel (h : Heap) (v : Value) :
    v.listId?.toList.length + h.unvisited [] ≤ h.occurrences + 1 := by
  have hone := length_listId?_le v
  have hlt := unvisited_nil_lt h
  omega

/-- The list that a value holds is found, and so are the lists that are elements of lists found. -/
theorem mem_reachable (h : Heap) (v : Value) :
    (∀ id, v.listId? = some id → id ∈ h.reachable v) ∧
      ∀ i ∈ h.reachable v, ∀ w ∈ h.contents i, ∀ j, w.listId? = some j → j ∈ h.reachable v := by
  obtain ⟨hmem, hclosed⟩ := reach_closed (enough_fuel h v)
  constructor
  · intro id hid
    exact hmem id (.inl (by simp [hid]))
  · intro i hi w hw j hj
    have hchildren := (hclosed i hi).resolve_left (by simp)
    exact hchildren j (List.mem_filterMap.mpr ⟨w, hw, hj⟩)

/-! ### What else there is makes no difference -/

/-- Only known lists are found. -/
lemma WellFormed.reach (hw : h.WellFormed) (fuel : Nat) {pending seen : List ListId}
    (hpending : ∀ i ∈ pending, i.index < h.lists.size)
    (hseen : ∀ i ∈ seen, i.index < h.lists.size) :
    ∀ i ∈ h.reach fuel pending seen, i.index < h.lists.size := by
  fun_induction Heap.reach h fuel pending seen with
  | case1 fuel seen => simpa using hseen
  | case2 pending seen => simpa using hseen
  | case3 fuel id pending seen hid ih =>
      exact ih (fun i hi => hpending i (List.mem_cons_of_mem _ hi)) hseen
  | case4 fuel id pending seen hid ih =>
      obtain ⟨hid, hpending⟩ := List.forall_mem_cons.mp hpending
      refine ih (fun i hi => ?_) (List.forall_mem_cons.mpr ⟨hid, hseen⟩)
      rcases List.mem_append.mp hi with hi | hi
      · exact hw.children hi
      · exact hpending i hi

/-- A visit that begins with known lists is the same in every heap that has left them as they
are. -/
lemma Extends.reach (hx : h.Extends h₀) (hw : h₀.WellFormed) (fuel : Nat)
    {pending seen : List ListId} (hpending : ∀ i ∈ pending, i.index < h₀.lists.size) :
    h.reach fuel pending seen = h₀.reach fuel pending seen := by
  induction fuel generalizing pending seen with
  | zero =>
      cases pending with
      | nil => rfl
      | cons id pending => rfl
  | succ fuel ih =>
      cases pending with
      | nil => rfl
      | cons id pending =>
          obtain ⟨hid, hrest⟩ := List.forall_mem_cons.mp hpending
          rw [Heap.reach, Heap.reach, hx.contents hw hid]
          split
          · exact ih hrest
          · refine ih fun i hi => ?_
            rcases List.mem_append.mp hi with hi | hi
            · exact hw.children hi
            · exact hrest i hi

lemma Extends.occurrences_le (hx : h.Extends h₀) : h₀.occurrences ≤ h.occurrences := by
  obtain ⟨t, ht⟩ := hx.lists
  rw [occurrences_eq, occurrences_eq, ← ht, List.map_append, List.sum_append]
  omega

/-- The lists reachable from a known value are the same in every heap that has left the known lists
as they are. -/
theorem Extends.reachable (hx : h.Extends h₀) (hw : h₀.WellFormed) (hv : h₀.Knows v) :
    h.reachable v = h₀.reachable v := by
  have hpending : ∀ i ∈ v.listId?.toList, i.index < h₀.lists.size := by
    intro i hi
    exact hv i (by simpa using hi)
  obtain ⟨k, hk⟩ := Nat.exists_eq_add_of_le (Nat.succ_le_succ hx.occurrences_le)
  rw [Heap.reachable, hx.reach hw _ hpending]
  show h₀.reach h.occurrences.succ _ [] = _
  rw [hk]
  exact reach_add (enough_fuel h₀ v) k

/-! ### Copies -/

/-- A copy of a value of `h₀` among the lists of `g`. -/
def adopt (h₀ g : Heap) (v : Value) : Value × Heap :=
  let ids := h₀.reachable v
  let rename := Value.rename (copyOf g.lists.size ids)
  (rename v, ids.foldl (fun acc id => (acc.alloc ((h₀.contents id).map rename).toArray).2) g)

/-- A list that is copied above others goes where it would go without them. -/
lemma rename_above (h g : Heap) {ids : List ListId} {w : Value}
    (hw : ∀ j, w.listId? = some j → j ∈ ids) :
    w.rename (copyOf (h.lists.size + g.lists.size) ids) =
      (w.rename (copyOf g.lists.size ids)).above h := by
  cases w with
  | list j =>
      have hj : ids.contains j = true := by simpa using hw j rfl
      simp only [Value.rename, Value.above_list, copyOf, hj, if_true, ListId.above, Nat.add_assoc]
  | _ => rfl

/-- A copy of a known value above other lists is the copy that would be made without them. -/
theorem clone_above (hx : h.Extends h₀) (hw : h₀.WellFormed) (hv : h₀.Knows v) (g : Heap) :
    (g.above h).clone v = ((h₀.adopt g v).1.above h, (h₀.adopt g v).2.above h) := by
  have hext : (g.above h).Extends h₀ := (extends_above g h).trans hx
  have hids := hext.reachable hw hv
  obtain ⟨hown, hclosed⟩ := mem_reachable h₀ v
  have hcontents : ∀ id ∈ h₀.reachable v,
      ((g.above h).contents id).map (Value.rename (copyOf (h.lists.size + g.lists.size)
          (h₀.reachable v))) =
        ((h₀.contents id).map (Value.rename (copyOf g.lists.size (h₀.reachable v)))).map
          (·.above h) := by
    intro id hid
    have hknown : id.index < h₀.lists.size :=
      hw.reach _ (fun i hi => hv i (by simpa using hi)) (by simp) id hid
    rw [hext.contents hw hknown, List.map_map]
    exact List.map_congr_left fun w hw' => rename_above h g (hclosed id hid w hw')
  -- the lists are copied one by one
  have hcopied : ∀ (ids : List ListId) (acc : Heap), (∀ id ∈ ids, id ∈ h₀.reachable v) →
      ids.foldl (fun acc id => (acc.alloc (((g.above h).contents id).map
          (Value.rename (copyOf (h.lists.size + g.lists.size) (h₀.reachable v)))).toArray).2)
          (acc.above h) =
        (ids.foldl (fun acc id => (acc.alloc ((h₀.contents id).map
          (Value.rename (copyOf g.lists.size (h₀.reachable v)))).toArray).2) acc).above h := by
    intro ids
    induction ids with
    | nil => exact fun acc _ => rfl
    | cons id ids ih =>
        intro acc hmem
        obtain ⟨hid, hrest⟩ := List.forall_mem_cons.mp hmem
        rw [List.foldl_cons, List.foldl_cons, hcontents id hid, ← ih _ hrest,
          ← List.map_toArray, alloc_above]
  simp only [clone, adopt, hids, size_lists_above]
  rw [rename_above h g hown, hcopied _ g fun id hid => hid]

end Heap

end Pseudocode
