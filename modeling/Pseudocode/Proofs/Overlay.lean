/-
# Lists above other lists

A run makes lists of its own, in a heap that holds others already: those of the host, and those of
earlier runs.  Its own lists and the banks they occupy come after the others.  So its heap is that
of a run with no other lists, moved up: everything that mentions a list or a bank mentions the one
that lies higher by as many as there are below.

The operations on lists do the same above other lists as they do without them, and values look the
same.  What lies below stays as it was.

The main results are

* `Heap.push_above`, `Heap.insert_above`, `Heap.erase_above`: changing a list above others changes
  the lists above as if there were no others;
* `Heap.render_above`: the text of a value does not depend on what lies below.
-/
import Mathlib.Data.Finset.Card
import Mathlib.Tactic.Lemma
import Pseudocode.Value.Clone
import Pseudocode.Value.Operators

namespace Pseudocode

/-- The list that lies above the lists of a heap where the given one lies without them. -/
def ListId.above (h : Heap) (id : ListId) : ListId := ⟨h.lists.size + id.index⟩

lemma ListId.above_inj {h : Heap} {i j : ListId} : i.above h = j.above h ↔ i = j := by
  cases i
  cases j
  simp [above]

namespace Value

/-- The value above the lists of a heap. -/
def above (h : Heap) (v : Value) : Value := v.rename (ListId.above h)

variable (h : Heap) (v w : Value)

@[simp] lemma above_nothing : nothing.above h = nothing := rfl

@[simp] lemma above_number (n : Number) : (number n).above h = number n := rfl

@[simp] lemma above_bool (b : Bool) : (bool b).above h = bool b := rfl

@[simp] lemma above_text (s : ByteString) : (text s).above h = text s := rfl

@[simp] lemma above_list (id : ListId) : (list id).above h = list (id.above h) := rfl

@[simp] lemma asNumber_above : (v.above h).asNumber = v.asNumber := by cases v <;> rfl

@[simp] lemma truthy_above : (v.above h).truthy = v.truthy := by cases v <;> rfl

@[simp] lemma isText_above : (v.above h).isText = v.isText := by cases v <;> rfl

@[simp] lemma position?_above (limit : Nat) : (v.above h).position? limit = v.position? limit := by
  simp [position?]

/-- Two values above the same lists compare as they do without them. -/
lemma relate_above (r : Relation) : relate r (v.above h) (w.above h) = relate r v w := by
  cases v with
  | list i =>
      cases w with
      | list j =>
          have hsame : (i.above h == j.above h) = (i == j) := by
            rw [Bool.eq_iff_iff, beq_iff_eq, beq_iff_eq, ListId.above_inj]
          simp only [above_list, relate, hsame]
      | _ => rfl
  | _ =>
      cases w with
      | _ => rfl

end Value

/-- The place above the banks of a heap. -/
def ListObject.above (h : Heap) (o : ListObject) : ListObject := ⟨h.banks.size + o.bank, o.length⟩

/-! ### Arrays behind other arrays -/

section

variable {α β : Type} (a b : Array α)

lemma getD_behind (i : Nat) (d : α) : (a ++ b).getD (a.size + i) d = b.getD i d := by
  simp [Array.getD]

lemma modify_behind (i : Nat) (f : α → α) :
    (a ++ b).modify (a.size + i) f = a ++ b.modify i f := by
  refine Array.ext_getElem? fun j => ?_
  rw [Array.getElem?_modify, Array.getElem?_append, Array.getElem?_append, Array.getElem?_modify]
  by_cases hj : j < a.size
  · rw [if_neg (by omega), if_pos hj, if_pos hj]
  · rw [if_neg hj]
    by_cases hij : i = j - a.size
    · rw [if_pos (by omega), if_pos hij]
      simp [hj]
    · rw [if_neg (by omega), if_neg hij]
      simp [hj]

lemma modify_map (g : α → β) (i : Nat) {f : α → α} {f' : β → β} (h : ∀ x, f' (g x) = g (f x)) :
    (b.map g).modify i f' = (b.modify i f).map g := by
  refine Array.ext_getElem? fun j => ?_
  rw [Array.getElem?_modify, Array.getElem?_map, Array.getElem?_map, Array.getElem?_modify]
  split
  · cases b[j]? with
    | none => rfl
    | some x => simp [h]
  · rfl

lemma getD_map (g : α → β) (i : Nat) (d : α) : (b.map g).getD i (g d) = g (b.getD i d) := by
  simp only [Array.getD_eq_getD_getElem?, Array.getElem?_map]
  cases b[i]? with
  | none => rfl
  | some x => rfl

end

namespace Heap

/-- The lists of `g` above those of `h`. -/
def above (g h : Heap) : Heap where
  lists := h.lists ++ g.lists.map (·.above h)
  banks := h.banks ++ g.banks.map (·.map (·.above h))
  slack := g.slack

variable (h g : Heap) (id : ListId) (v : Value)

lemma above_empty : above { slack := h.slack } h = h := by
  simp [above]

lemma size_lists_above : (g.above h).lists.size = h.lists.size + g.lists.size := by
  simp [above]

lemma size_banks_above : (g.above h).banks.size = h.banks.size + g.banks.size := by
  simp [above]

lemma object_above : (g.above h).object (id.above h) = (g.object id).above h := by
  rw [object, size_banks_above]
  simp only [above, ListId.above]
  rw [getD_behind]
  exact getD_map g.lists (ListObject.above h) id.index ⟨g.banks.size, 0⟩

lemma cells_above (bank : Nat) :
    (g.above h).cells (h.banks.size + bank) = (g.cells bank).map (·.above h) := by
  simp only [cells, above]
  rw [getD_behind]
  simpa only [Array.map_empty] using getD_map g.banks (fun a => a.map (·.above h)) bank #[]

@[simp] lemma length_above : (g.above h).length (id.above h) = g.length id := by
  rw [length, object_above]
  rfl

@[simp] lemma contents_above :
    (g.above h).contents (id.above h) = (g.contents id).map (·.above h) := by
  simp only [contents, object_above, ListObject.above]
  rw [cells_above, Array.toList_map, List.map_take]

@[simp] lemma get?_above (i : Nat) :
    (g.above h).get? (id.above h) i = (g.get? id i).map (·.above h) := by
  simp only [get?, object_above, ListObject.above]
  rw [cells_above, Array.getElem?_map]
  split
  · rfl
  · rfl

/-- A new list above others. -/
lemma alloc_above (vs : Array Value) :
    (g.above h).alloc (vs.map (·.above h)) = ((g.alloc vs).1.above h, (g.alloc vs).2.above h) := by
  simp only [alloc, size_lists_above, size_banks_above]
  simp [above, ListId.above, ListObject.above]

lemma set_above (i : Nat) :
    (g.above h).set (id.above h) i (v.above h) = (g.set id i v).above h := by
  simp only [set, object_above, ListObject.above]
  simp only [above]
  rw [modify_behind, modify_map]
  simp

lemma push_above : (g.above h).push (id.above h) (v.above h) = (g.push id v).above h := by
  simp only [push, object_above, ListObject.above, cells_above, size_banks_above, Array.size_map]
  split
  · simp only [above, ListId.above]
    rw [modify_behind, modify_behind, modify_map, modify_map]
    · simp
    · simp [ListObject.above]
  · simp only [above, ListId.above]
    rw [modify_behind,
      modify_map g.lists (ListObject.above h) _
        (f := fun _ => ⟨g.banks.size, (g.object id).length + 1⟩) fun _ => rfl]
    simp

lemma insert_above (i : Nat) :
    (g.above h).insert (id.above h) i (v.above h) = (g.insert id i v).above h := by
  have hpush : (g.above h).push (id.above h) .nothing = (g.push id .nothing).above h :=
    push_above h g id .nothing
  simp only [insert, hpush, object_above, ListObject.above]
  simp only [above]
  rw [modify_behind, modify_map]
  simp

lemma erase_above (i : Nat) : (g.above h).erase (id.above h) i = (g.erase id i).above h := by
  simp only [erase, object_above, ListObject.above]
  simp only [above, ListId.above]
  rw [modify_behind, modify_behind, modify_map, modify_map]
  · simp
  · simp [ListObject.above]

end Heap

/-! ### Loops over lists -/

/-- A cursor above the banks of a heap. -/
def Cursor.above (h : Heap) (c : Cursor) : Cursor := ⟨h.banks.size + c.bank, c.length⟩

lemma Cursor.start_above (h g : Heap) (id : ListId) :
    start (g.above h) (id.above h) = (start g id).above h := by
  simp only [start, Heap.object_above]
  rfl

lemma Cursor.read?_above (h g : Heap) (c : Cursor) (i : Nat) :
    (c.above h).read? (g.above h) i = (c.read? g i).map (·.above h) := by
  simp only [read?, above, Heap.cells_above]
  split
  · exact congrArg some (getD_map (g.cells c.bank) (·.above h) i .nothing)
  · rfl

/-! ### Texts -/

namespace Heap

variable {τ : Type} [Append τ] (r : Rendering τ)

lemma contains_map_above (h : Heap) (around : List ListId) (id : ListId) :
    (around.map (·.above h)).contains (id.above h) = around.contains id := by
  rw [Bool.eq_iff_iff, List.contains_iff_mem, List.contains_iff_mem, List.mem_map]
  constructor
  · rintro ⟨j, hj, heq⟩
    rwa [← ListId.above_inj.mp heq]
  · exact fun hid => ⟨id, hid, rfl⟩

lemma renderWithin_above (h g : Heap) (depth : Nat) (around : List ListId) (v : Value) :
    (g.above h).renderWithin r depth (around.map (·.above h)) (v.above h) =
      g.renderWithin r depth around v := by
  induction depth generalizing around v with
  | zero =>
      cases v with
      | list id => simp [renderWithin]
      | _ => rfl
  | succ depth ih =>
      cases v with
      | list id =>
          simp only [Value.above_list, renderWithin, contains_map_above, contents_above,
            List.map_map]
          have hparts : ((g.above h).renderWithin r depth (id.above h :: around.map (·.above h))) ∘
              (·.above h) = g.renderWithin r depth (id :: around) :=
            funext fun w => ih (id :: around) w
          rw [hparts]
      | _ => rfl

/-- The number of lists that are not among the given ones. -/
def unopened (g : Heap) (around : List ListId) : Nat :=
  ((Finset.range g.lists.size).filter fun i => (⟨i⟩ : ListId) ∉ around).card

lemma contents_of_size_le {g : Heap} {id : ListId} (hid : g.lists.size ≤ id.index) :
    g.contents id = [] := by
  simp [contents, object, Array.getD, Nat.not_lt.mpr hid]

lemma unopened_cons_lt {g : Heap} {around : List ListId} {id : ListId}
    (hid : id.index < g.lists.size) (hnew : id ∉ around) :
    g.unopened (id :: around) < g.unopened around := by
  refine Finset.card_lt_card ⟨?_, ?_⟩
  · intro i hi
    simp only [Finset.mem_filter, Finset.mem_range, List.mem_cons, not_or] at hi ⊢
    exact ⟨hi.1, hi.2.2⟩
  · intro hsubset
    have hmem : id.index ∈ (Finset.range g.lists.size).filter
        fun i => (⟨i⟩ : ListId) ∉ around := by
      simpa using ⟨hid, hnew⟩
    have hin := hsubset hmem
    simp at hin

/-- A bound on the lists that can be opened makes no difference if it is large enough. -/
lemma renderWithin_succ (g : Heap) (depth : Nat) (around : List ListId) (v : Value)
    (hdepth : g.unopened around < depth) :
    g.renderWithin r (depth + 1) around v = g.renderWithin r depth around v := by
  induction depth generalizing around v with
  | zero => omega
  | succ depth ih =>
      cases v with
      | list id =>
          rw [renderWithin, renderWithin]
          split
          · rfl
          · rename_i hnew
            -- only a list that is known has elements
            have hparts : (g.contents id).map (g.renderWithin r (depth + 1) (id :: around)) =
                (g.contents id).map (g.renderWithin r depth (id :: around)) := by
              by_cases hid : id.index < g.lists.size
              · refine List.map_congr_left fun w _ => ih _ w ?_
                have hlt := unopened_cons_lt hid (by simpa using hnew)
                omega
              · rw [contents_of_size_le (by omega)]
                rfl
            simp only [hparts]
      | _ => rfl

lemma renderWithin_of_le (g : Heap) (v : Value) {depth : Nat} (hdepth : g.lists.size < depth) :
    g.renderWithin r depth [] v = g.render r v := by
  induction depth, hdepth using Nat.le_induction with
  | base => rfl
  | succ depth hle ih =>
      rw [renderWithin_succ, ih]
      have hcard : g.unopened [] ≤ g.lists.size := by simp [unopened]
      exact Nat.lt_of_le_of_lt hcard hle

/-- The text of a value does not depend on what lies below. -/
theorem render_above (h g : Heap) (v : Value) :
    (g.above h).render r (v.above h) = g.render r v := by
  have hdepth : g.lists.size < h.lists.size + g.lists.size + 1 := by omega
  rw [render, size_lists_above, ← renderWithin_of_le r g v hdepth]
  exact renderWithin_above r h g _ [] v

@[simp] lemma display_above (h g : Heap) (v : Value) :
    (g.above h).display (v.above h) = g.display v :=
  render_above .plain h g v

end Heap

lemma Value.operate?_above (h g : Heap) (op : Kind) (v w : Value) :
    operate? (g.above h) op (v.above h) (w.above h) = (operate? g op v w).map (·.above h) := by
  cases op with
  | add =>
      simp only [operate?, isText_above, Heap.display_above, asNumber_above]
      split
      · rfl
      · rfl
  | _ => simp [operate?]

end Pseudocode
