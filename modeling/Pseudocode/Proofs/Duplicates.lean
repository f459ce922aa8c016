/-
# Copies of values

A copy of a value has the shape of the value: the lists that can be reached from it are those that
can be reached from the value under new names, each copied once, so that it shares what the value
shares and holds itself where the value does.  All of its lists are new.

Lists that are changed later are either on the side of the copy or on the other one, and what is
changed on one side is not seen on the other.

The main results are

* `Heap.renamed_clone`: the copy has the shape of the value;
* `Heap.grown_clone`: copying adds new lists to the heap, and leaves what there is;
* `Heap.ChangesOn.spared`: later changes stay on their side;
* `Heap.grown_copyFrames`: copies of frames.
-/
import Pseudocode.Proofs.Changes
import Pseudocode.Proofs.Custody
import Pseudocode.Proofs.Printing

namespace Pseudocode

namespace Heap

variable {h h' h'' : Heap} {v w : Value} {f : ListId → ListId}

/-! ### Lists under new names -/

/-- What can be reached under new names is what could be reached. -/
lemma Renamed.reaches_iff (hr : h.Renamed h' v f) {j : ListId} :
    Reaches h'.sequences (v.rename f) j ↔ ∃ i, Reaches h.sequences v i ∧ f i = j := by
  constructor
  · rintro ⟨k, hk, hpath⟩
    induction hpath with
    | refl =>
        cases v with
        | list i => exact ⟨i, ⟨i, rfl, .refl⟩, by simpa [Value.rename] using hk⟩
        | _ => cases hk
    | tail _ hstep ih =>
        obtain ⟨i, hi, rfl⟩ := ih
        rw [Holds, getD_sequences, hr.contents i hi] at hstep
        obtain ⟨x, hx, heq⟩ := List.mem_map.mp hstep
        cases x with
        | list k' => exact ⟨k', reaches_of_mem hi hx rfl, by simpa [Value.rename] using heq⟩
        | _ => cases heq
  · rintro ⟨i, ⟨k, rfl, hpath⟩, rfl⟩
    refine ⟨f k, rfl, ?_⟩
    induction hpath with
    | refl => exact .refl
    | tail hpath hstep ih =>
        refine ih.tail ?_
        rw [Holds, getD_sequences] at hstep ⊢
        rw [hr.contents _ ⟨k, rfl, hpath⟩]
        exact List.mem_map_of_mem (f := Value.rename f) hstep

lemma rename_id (v : Value) : v.rename id = v := by
  cases v with
  | _ => rfl

/-- A value is seen as before if the lists that can be reached have the elements that they had. -/
lemma renamed_id (hsame : ∀ i, Reaches h.sequences v i → h'.contents i = h.contents i) :
    h.Renamed h' v id := by
  refine ⟨fun _ _ _ _ heq => heq, fun i hi => ?_⟩
  have hid : Value.rename id = (id : Value → Value) := funext rename_id
  rw [hid, List.map_id]
  exact hsame i hi

lemma reaches_congr (hsame : ∀ i, Reaches h.sequences v i → h'.contents i = h.contents i)
    {j : ListId} : Reaches h'.sequences v j ↔ Reaches h.sequences v j := by
  have hiff := (renamed_id hsame).reaches_iff (j := j)
  rw [rename_id] at hiff
  rw [hiff]
  exact ⟨fun ⟨i, hi, heq⟩ => heq ▸ hi, fun hj => ⟨j, hj, rfl⟩⟩

lemma render_congr (hsame : ∀ i, Reaches h.sequences v i → h'.contents i = h.contents i)
    {τ : Type} [Append τ] (r : Rendering τ) : h'.render r v = h.render r v := by
  have hrender := (renamed_id hsame).render r
  rwa [rename_id] at hrender

/-! ### What copying does to the heap -/

/-- The heap has grown: what it had is left as it was, and the new lists have new banks. -/
structure Grown (h h' : Heap) : Prop where
  kept : h'.Extends h
  wellFormed : h'.WellFormed
  apart : ∀ j : ListId, h.lists.size ≤ j.index → h.banks.size ≤ (h'.object j).bank

/-- The lists that have been made meanwhile. -/
def New (h h' : Heap) (j : ListId) : Prop := h.lists.size ≤ j.index ∧ j.index < h'.lists.size

lemma object_of_size_le {i : ListId} (hi : h.lists.size ≤ i.index) :
    h.object i = ⟨h.banks.size, 0⟩ := by
  simp [object, Array.getD, Nat.not_lt.mpr hi]

lemma grown_refl (hw : h.WellFormed) : Grown h h where
  kept := .refl h
  wellFormed := hw
  apart := fun _ hj => by rw [object_of_size_le hj]

lemma Grown.trans (hg : Grown h h') (hg' : Grown h' h'') : Grown h h'' where
  kept := hg'.kept.trans hg.kept
  wellFormed := hg'.wellFormed
  apart := by
    intro j hj
    by_cases hlt : j.index < h'.lists.size
    · rw [hg'.kept.object hlt]
      exact hg.apart j hj
    · exact hg.kept.size_banks_le.trans (hg'.apart j (Nat.le_of_not_lt hlt))

lemma Extends.knows (hx : h'.Extends h) (hv : h.Knows v) : h'.Knows v :=
  fun i hi => Nat.lt_of_lt_of_le (hv i hi) hx.size_lists_le

/-! ### What a copy is made of -/

/-- New lists come after the others, each with a bank that comes after the other banks. -/
lemma toList_foldl_alloc (h : Heap) (f : ListId → Array Value) (ids : List ListId) :
    (ids.foldl (fun acc id => (acc.alloc (f id)).2) h).lists.toList =
        h.lists.toList ++ ids.mapIdx (fun k id => ⟨h.banks.size + k, (f id).size⟩) ∧
      (ids.foldl (fun acc id => (acc.alloc (f id)).2) h).banks.toList =
        h.banks.toList ++ ids.map f := by
  induction ids generalizing h with
  | nil => simp
  | cons id ids ih =>
      obtain ⟨hlists, hbanks⟩ := ih (h.alloc (f id)).2
      rw [List.foldl_cons, hlists, hbanks]
      constructor
      · simp [alloc, List.mapIdx_cons, Nat.add_assoc, Nat.add_comm 1]
      · simp [alloc]

section Clone

variable (h v)

/-- The names that the lists of a value have in its copy. -/
def named : ListId → ListId := copyOf h.lists.size (h.reachable v)

lemma lists_clone :
    (h.clone v).2.lists.toList = h.lists.toList ++
      (h.reachable v).mapIdx fun k id => ⟨h.banks.size + k, (h.contents id).length⟩ := by
  refine (toList_foldl_alloc h _ _).1.trans ?_
  simp

lemma banks_clone :
    (h.clone v).2.banks.toList = h.banks.toList ++
      (h.reachable v).map fun id => ((h.contents id).map (Value.rename (h.named v))).toArray :=
  (toList_foldl_alloc h _ _).2

lemma extends_clone : (h.clone v).2.Extends h :=
  ⟨⟨_, (lists_clone h v).symm⟩, ⟨_, (banks_clone h v).symm⟩⟩

lemma size_lists_clone : (h.clone v).2.lists.size = h.lists.size + (h.reachable v).length := by
  rw [← Array.length_toList, lists_clone]
  simp

lemma size_banks_clone : (h.clone v).2.banks.size = h.banks.size + (h.reachable v).length := by
  rw [← Array.length_toList, banks_clone]
  simp

variable {k : Nat} (hk : k < (h.reachable v).length)

include hk

lemma object_clone : (h.clone v).2.object ⟨h.lists.size + k⟩ =
    ⟨h.banks.size + k, (h.contents (h.reachable v)[k]).length⟩ := by
  have hlt : (⟨h.lists.size + k⟩ : ListId).index < (h.clone v).2.lists.size := by
    rw [size_lists_clone]
    exact Nat.add_lt_add_left hk _
  have hsome := (object_of_lt hlt).2
  rw [lists_clone, List.getElem?_append_right (by simp)] at hsome
  simpa [hk] using hsome.symm

lemma cells_clone : (h.clone v).2.cells (h.banks.size + k) =
    ((h.contents (h.reachable v)[k]).map (Value.rename (h.named v))).toArray := by
  have hlt : h.banks.size + k < (h.clone v).2.banks.size := by
    rw [size_banks_clone]
    exact Nat.add_lt_add_left hk _
  have hsome := (cells_of_lt hlt).2
  rw [banks_clone, List.getElem?_append_right (by simp)] at hsome
  simpa [hk] using hsome.symm

lemma contents_clone : (h.clone v).2.contents ⟨h.lists.size + k⟩ =
    (h.contents (h.reachable v)[k]).map (Value.rename (h.named v)) := by
  simp [contents, object_clone h v hk, cells_clone h v hk]

end Clone

/-- A list that is copied has the name of the new list at its place in the order of the visit. -/
lemma named_eq {i : ListId} (hi : Reaches h.sequences v i) :
    ∃ k, ∃ hk : k < (h.reachable v).length,
      (h.reachable v)[k] = i ∧ h.named v i = ⟨h.lists.size + k⟩ := by
  have hmem : i ∈ h.reachable v := ((mem_reachable_iff h v).2 i).mpr hi
  refine ⟨(h.reachable v).idxOf i, List.idxOf_lt_length_of_mem hmem,
    List.getElem_idxOf (List.idxOf_lt_length_of_mem hmem), ?_⟩
  simp [named, copyOf, hmem]

/-- The copy has the shape of the value. -/
theorem renamed_clone (h : Heap) (v : Value) :
    (h.clone v).1 = v.rename (h.named v) ∧ h.Renamed (h.clone v).2 v (h.named v) := by
  refine ⟨rfl, fun i hi j hj heq => ?_, fun i hi => ?_⟩
  · obtain ⟨k, hk, rfl, hname⟩ := named_eq hi
    obtain ⟨l, hl, rfl, hname'⟩ := named_eq hj
    rw [hname, hname'] at heq
    have hsame : k = l := by simpa using heq
    subst hsame
    rfl
  · obtain ⟨k, hk, rfl, hname⟩ := named_eq hi
    rw [hname, contents_clone h v hk]

example : (sharing.clone (.list ⟨0⟩)).2.contents ⟨3⟩ = [.list ⟨4⟩, .list ⟨4⟩] := by decide

/-- The new lists are the copies of the lists that can be reached from the value. -/
lemma new_clone_iff (h : Heap) (v : Value) (j : ListId) :
    h.New (h.clone v).2 j ↔ ∃ i, Reaches h.sequences v i ∧ h.named v i = j := by
  constructor
  · rintro ⟨hle, hlt⟩
    rw [size_lists_clone] at hlt
    have hk : j.index - h.lists.size < (h.reachable v).length := by omega
    have hreach := ((mem_reachable_iff h v).2 _).mp (List.getElem_mem hk)
    refine ⟨_, hreach, ?_⟩
    obtain ⟨l, hl, heq, hname⟩ := named_eq hreach
    -- no list is visited twice
    obtain rfl := (List.Nodup.getElem_inj_iff (mem_reachable_iff h v).1).mp heq
    rw [hname]
    obtain ⟨k⟩ := j
    simp only [ListId.mk.injEq]
    simp only at hle
    omega
  · rintro ⟨i, hi, rfl⟩
    obtain ⟨k, hk, -, hname⟩ := named_eq hi
    rw [hname, New, size_lists_clone]
    exact ⟨Nat.le_add_right _ _, Nat.add_lt_add_left hk _⟩

lemma reaches_clone_iff (h : Heap) (v : Value) (j : ListId) :
    Reaches (h.clone v).2.sequences (h.clone v).1 j ↔ h.New (h.clone v).2 j := by
  rw [(renamed_clone h v).1, (renamed_clone h v).2.reaches_iff, new_clone_iff]

/-- What can be reached from a known value is known. -/
lemma WellFormed.reaches (hw : h.WellFormed) (hv : h.Knows v) {i : ListId}
    (hi : Reaches h.sequences v i) : i.index < h.lists.size := by
  have hmem := ((mem_reachable_iff h v).2 i).mpr hi
  exact hw.reach _ (fun j hj => hv j (by simpa using hj)) (by simp) i hmem

lemma knows_rename (hv : ∀ i, v = .list i → (f i).index < h.lists.size) :
    h.Knows (v.rename f) := by
  intro j hj
  cases v with
  | list i =>
      obtain rfl : f i = j := by simpa [Value.rename, Value.listId?] using hj
      exact hv i rfl
  | _ => cases hj

/-- Copying adds new lists to the heap, and leaves what there is. -/
theorem grown_clone (hw : h.WellFormed) (v : Value) : Grown h (h.clone v).2 := by
  have hx := extends_clone h v
  have hname : ∀ i, Reaches h.sequences v i →
      (h.named v i).index < (h.clone v).2.lists.size := fun i hi =>
    ((new_clone_iff h v _).mpr ⟨i, hi, rfl⟩).2
  have hnew : ∀ j : ListId, h.lists.size ≤ j.index → j.index < (h.clone v).2.lists.size →
      h.banks.size ≤ ((h.clone v).2.object j).bank ∧
        ((h.clone v).2.object j).bank < (h.clone v).2.banks.size := by
    intro j hle hlt
    rw [size_lists_clone] at hlt
    obtain ⟨k, hk⟩ := Nat.exists_eq_add_of_le hle
    obtain rfl : j = ⟨h.lists.size + k⟩ := by
      cases j
      simpa using hk
    rw [object_clone h v (by simpa using hlt), size_banks_clone]
    exact ⟨Nat.le_add_right _ _, by simpa using hlt⟩
  refine ⟨hx, ⟨fun o ho => ?_, fun a ha x hxa => ?_⟩, fun j hj => ?_⟩
  · rw [lists_clone] at ho
    rw [size_banks_clone]
    rcases List.mem_append.mp ho with ho | ho
    · exact Nat.lt_of_lt_of_le (hw.bank o ho) (Nat.le_add_right _ _)
    · obtain ⟨k, hk, rfl⟩ := List.mem_mapIdx.mp ho
      exact Nat.add_lt_add_left hk _
  · rw [banks_clone] at ha
    rcases List.mem_append.mp ha with ha | ha
    · exact hx.knows (hw.known a ha x hxa)
    · -- an element of a copy is that of a list that can be reached
      obtain ⟨i, hi, rfl⟩ := List.mem_map.mp ha
      obtain ⟨y, hy, rfl⟩ := List.mem_map.mp (by simpa using hxa)
      have hreach := ((mem_reachable_iff h v).2 i).mp hi
      exact knows_rename fun j hj => hname j (reaches_of_mem hreach hy hj)
  · by_cases hlt : j.index < (h.clone v).2.lists.size
    · exact (hnew j hj hlt).1
    · rw [object_of_size_le (Nat.le_of_not_lt hlt)]
      exact hx.size_banks_le

/-- The copy has the texts of the value. -/
lemma render_clone (h : Heap) (v : Value) {τ : Type} [Append τ] (r : Rendering τ) :
    (h.clone v).2.render r (h.clone v).1 = h.render r v := by
  rw [(renamed_clone h v).1]
  exact (renamed_clone h v).2.render r

/-- A known value has the same texts in every heap that has left its lists as they are. -/
lemma Extends.render (hx : h'.Extends h) (hw : h.WellFormed) (hv : h.Knows v) {τ : Type} [Append τ]
    (r : Rendering τ) : h'.render r v = h.render r v :=
  render_congr (fun _ hi => hx.contents hw (hw.reaches hv hi)) r

/-- Copying a known value gives a known value. -/
lemma knows_clone (h : Heap) (v : Value) : (h.clone v).2.Knows (h.clone v).1 := by
  rw [(renamed_clone h v).1]
  refine knows_rename fun i hi => ((new_clone_iff h v _).mpr ⟨i, ?_, rfl⟩).2
  exact ⟨i, hi, .refl⟩

/-! ### Later changes -/

/-- A change that makes a list, or changes a list of the side `c`. -/
inductive ChangeOn (side : ListId → Bool) (c : Bool) (h : Heap) : Heap → Prop where
  | alloc (vs : Array Value) : ChangeOn side c h (h.alloc vs).2
  | set {id : ListId} (hid : side id = c) (i : Nat) (v : Value) : ChangeOn side c h (h.set id i v)
  | push {id : ListId} (hid : side id = c) (v : Value) : ChangeOn side c h (h.push id v)
  | insert {id : ListId} (hid : side id = c) (i : Nat) (v : Value) :
      ChangeOn side c h (h.insert id i v)
  | erase {id : ListId} (hid : side id = c) (i : Nat) : ChangeOn side c h (h.erase id i)

/-- Such changes one after another. -/
abbrev ChangesOn (side : ListId → Bool) (c : Bool) : Heap → Heap → Prop :=
  Relation.ReflTransGen (ChangeOn side c)

/-- Lists on different sides have different banks. -/
structure Parted (side : ListId → Bool) (h : Heap) : Prop where
  stored : ∀ i : ListId, i.index < h.lists.size → (h.object i).bank < h.banks.size
  apart : ∀ i j : ListId, i.index < h.lists.size → j.index < h.lists.size → side i ≠ side j →
    (h.object i).bank ≠ (h.object j).bank

/-- The lists of the other side than `c` are as they were. -/
structure Spared (side : ListId → Bool) (c : Bool) (h h' : Heap) : Prop where
  parted : Parted side h'
  known : h.lists.size ≤ h'.lists.size
  objects : ∀ j : ListId, j.index < h.lists.size → side j ≠ c → h'.object j = h.object j
  cells : ∀ j : ListId, j.index < h.lists.size → side j ≠ c →
    h'.cells (h.object j).bank = h.cells (h.object j).bank

variable {side : ListId → Bool} {c : Bool} {id : ListId}

lemma spared_refl (hp : Parted side h) (c : Bool) : Spared side c h h :=
  ⟨hp, Nat.le_refl _, fun _ _ _ => rfl, fun _ _ _ => rfl⟩

lemma Spared.trans (hs : Spared side c h h') (hs' : Spared side c h' h'') :
    Spared side c h h'' where
  parted := hs'.parted
  known := hs.known.trans hs'.known
  objects := fun j hj hc =>
    (hs'.objects j (Nat.lt_of_lt_of_le hj hs.known) hc).trans (hs.objects j hj hc)
  cells := by
    intro j hj hc
    have hlater := hs'.cells j (Nat.lt_of_lt_of_le hj hs.known) hc
    rw [hs.objects j hj hc] at hlater
    exact hlater.trans (hs.cells j hj hc)

lemma Spared.contents (hs : Spared side c h h') {j : ListId} (hj : j.index < h.lists.size)
    (hc : side j ≠ c) : h'.contents j = h.contents j := by
  simp only [Heap.contents, hs.objects j hj hc, hs.cells j hj hc]

/-- No list of the other side has the bank of a list, be it known or not. -/
lemma Parted.bank_ne (hp : Parted side h) {j : ListId} (hj : j.index < h.lists.size)
    (hside : side j ≠ side id) : (h.object id).bank ≠ (h.object j).bank := by
  by_cases hid : id.index < h.lists.size
  · exact hp.apart id j hid hj hside.symm
  · rw [object_of_size_le (Nat.le_of_not_lt hid)]
    exact (Nat.ne_of_lt (hp.stored j hj)).symm

/-- A list is changed in its bank. -/
lemma spared_rework (hp : Parted side h) (id : ListId) (g : Nat → Nat)
    (f : Array Value → Array Value) : Spared side (side id) h (h.rework id g f) := by
  have hsize : (h.rework id g f).lists.size = h.lists.size := by simp [rework]
  have hobject : ∀ {i : ListId}, i.index < h.lists.size →
      (h.rework id g f).object i =
        if i = id then { h.object i with length := g (h.object i).length } else h.object i :=
    fun hi => object_of_modify (f := fun o => { o with length := g o.length }) rfl hi
  have hbank : ∀ {i : ListId}, i.index < h.lists.size →
      ((h.rework id g f).object i).bank = (h.object i).bank := by
    intro i hi
    rw [hobject hi]
    split
    · rfl
    · rfl
  refine ⟨⟨fun i hi => ?_, fun i j hi hj hside => ?_⟩, by rw [hsize], fun j hj hc => ?_,
    fun j hj hc => ?_⟩
  · rw [hsize] at hi
    rw [hbank hi]
    simpa [rework] using hp.stored i hi
  · rw [hsize] at hi hj
    rw [hbank hi, hbank hj]
    exact hp.apart i j hi hj hside
  · have hne : j ≠ id := fun heq => hc (congrArg side heq)
    rw [hobject hj, if_neg hne]
  · rw [cells_of_modify (f := f) rfl (hp.stored j hj), if_neg (hp.bank_ne hj hc)]

/-- A list moves to a new bank. -/
lemma spared_relocate (hp : Parted side h) (id : ListId) (n : Nat) (a : Array Value) :
    Spared side (side id) h (h.relocate id n a) := by
  have hsize : (h.relocate id n a).lists.size = h.lists.size := by simp [relocate]
  have hobject : ∀ {i : ListId}, i.index < h.lists.size →
      (h.relocate id n a).object i = if i = id then ⟨h.banks.size, n⟩ else h.object i :=
    fun hi => object_of_modify (f := fun _ => ⟨h.banks.size, n⟩) rfl hi
  refine ⟨⟨fun i hi => ?_, fun i j hi hj hside => ?_⟩, by rw [hsize], fun j hj hc => ?_,
    fun j hj hc => ?_⟩
  · rw [hsize] at hi
    have hstored := hp.stored i hi
    have hbanks : (h.relocate id n a).banks.size = h.banks.size + 1 := by simp [relocate]
    rw [hobject hi, hbanks]
    split
    · exact Nat.lt_succ_self _
    · exact Nat.lt_succ_of_lt hstored
  · rw [hsize] at hi hj
    have hi' := hp.stored i hi
    have hj' := hp.stored j hj
    rw [hobject hi, hobject hj]
    split
    · rename_i hid
      have hne : j ≠ id := fun heq => hside (congrArg side (hid.trans heq.symm))
      rw [if_neg hne]
      exact (Nat.ne_of_lt hj').symm
    · split
      · exact Nat.ne_of_lt hi'
      · exact hp.apart i j hi hj hside
  · have hne : j ≠ id := fun heq => hc (congrArg side heq)
    rw [hobject hj, if_neg hne]
  · have hlt := hp.stored j hj
    simp [relocate, Heap.cells, Array.getD_eq_getD_getElem?, Array.getElem?_push,
      Nat.ne_of_lt hlt]

/-- A new list has a bank of its own, on whichever side it is. -/
lemma spared_alloc (hp : Parted side h) (vs : Array Value) (c : Bool) :
    Spared side c h (h.alloc vs).2 := by
  have hbanks : (h.alloc vs).2.banks.size = h.banks.size + 1 := by simp [alloc]
  have hsize : h.lists.size < (h.alloc vs).2.lists.size := by simp [alloc]
  refine ⟨⟨fun i hi => ?_, fun i j hi hj hside => ?_⟩, Nat.le_of_lt hsize, fun j hj _ => ?_,
    fun j hj _ => cells_alloc_of_lt vs (hp.stored j hj)⟩
  · rw [hbanks]
    rcases object_alloc vs hi with ⟨hlt, hobject⟩ | ⟨-, hobject⟩
    · rw [hobject]
      exact Nat.lt_succ_of_lt (hp.stored i hlt)
    · rw [hobject]
      exact Nat.lt_succ_self _
  · rcases object_alloc vs hi with ⟨hi, hi'⟩ | ⟨hi, hi'⟩
    · rcases object_alloc vs hj with ⟨hj, hj'⟩ | ⟨-, hj'⟩
      · rw [hi', hj']
        exact hp.apart i j hi hj hside
      · rw [hi', hj']
        exact Nat.ne_of_lt (hp.stored i hi)
    · rcases object_alloc vs hj with ⟨hj, hj'⟩ | ⟨hj, -⟩
      · rw [hi', hj']
        exact (Nat.ne_of_lt (hp.stored j hj)).symm
      · obtain ⟨i⟩ := i
        obtain ⟨j⟩ := j
        simp_all
  · rcases object_alloc vs (hj.trans hsize) with ⟨-, hobject⟩ | ⟨heq, -⟩
    · exact hobject
    · omega

lemma spared_push (hp : Parted side h) (id : ListId) (v : Value) :
    Spared side (side id) h (h.push id v) := by
  unfold push
  dsimp only
  split
  · exact spared_rework hp id (· + 1) fun a => a.setIfInBounds (h.length id) v
  · exact spared_relocate hp id _ _

/-- Whatever is changed on one side, the lists of the other are as they were. -/
theorem ChangeOn.spared (hc : ChangeOn side c h h') (hp : Parted side h) :
    Spared side c h h' := by
  cases hc with
  | alloc vs => exact spared_alloc hp vs c
  | @set id hid i v =>
      subst hid
      unfold Heap.set
      dsimp only
      rw [modify_banks_eq_rework]
      exact spared_rework hp id _ _
  | @push id hid v =>
      subst hid
      exact spared_push hp id v
  | @insert id hid i v =>
      subst hid
      have hpush := spared_push hp id .nothing
      unfold Heap.insert
      dsimp only
      rw [modify_banks_eq_rework]
      exact hpush.trans (spared_rework hpush.parted id _ _)
  | @erase id hid i =>
      subst hid
      exact spared_rework hp id (· - 1) _

/-- What one change spares is spared by changes one after another. -/
theorem ChangesOn.spared (hc : ChangesOn side c h h') (hp : Parted side h) :
    Spared side c h h' := by
  induction hc with
  | refl => exact spared_refl hp c
  | tail _ hlast ih => exact ih.trans (hlast.spared ih.parted)

/-- Any change is made on one of the two sides. -/
lemma Change.changeOn (hc : Change h h') (side : ListId → Bool) :
    ∃ c, ChangeOn side c h h' := by
  cases hc with
  | alloc vs => exact ⟨true, .alloc vs⟩
  | set id i v => exact ⟨side id, .set rfl i v⟩
  | push id v => exact ⟨side id, .push rfl v⟩
  | insert id i v => exact ⟨side id, .insert rfl i v⟩
  | erase id i => exact ⟨side id, .erase rfl i⟩

/-- The sides stay apart, whatever is changed on either. -/
lemma Parted.changes (hp : Parted side h) (hc : Changes h h') : Parted side h' := by
  refine hc.keep (fun hchange hp => ?_) hp
  obtain ⟨c, hc⟩ := hchange.changeOn side
  exact (hc.spared hp).parted

/-- The new lists are on one side, and the old ones on the other. -/
structure Sides (h h' : Heap) (side : ListId → Bool) : Prop where
  new : ∀ j, New h h' j → side j = true
  old : ∀ j : ListId, j.index < h.lists.size → side j = false

instance (h h' : Heap) : DecidablePred (New h h') := fun j =>
  inferInstanceAs (Decidable (h.lists.size ≤ j.index ∧ j.index < h'.lists.size))

/-- The lists may be told apart by their identities. -/
lemma sides_new (h h' : Heap) : Sides h h' fun j => decide (New h h' j) where
  new := fun _ hj => decide_eq_true hj
  old := fun _ hj => decide_eq_false fun hnew => absurd hnew.1 (Nat.not_le.mpr hj)

lemma Grown.parted (hw : h.WellFormed) (hg : Grown h h') (hs : Sides h h' side) :
    Parted side h' := by
  have hbank : ∀ {i j : ListId}, i.index < h.lists.size → h.lists.size ≤ j.index →
      (h'.object i).bank < (h'.object j).bank := by
    intro i j hi hj
    rw [hg.kept.object hi]
    exact Nat.lt_of_lt_of_le (hw.bank _ (object_of_lt hi).1) (hg.apart j hj)
  refine ⟨fun i hi => hg.wellFormed.bank _ (object_of_lt hi).1, fun i j hi hj hside => ?_⟩
  by_cases hi' : i.index < h.lists.size
  · by_cases hj' : j.index < h.lists.size
    · exact absurd ((hs.old i hi').trans (hs.old j hj').symm) hside
    · exact Nat.ne_of_lt (hbank hi' (Nat.le_of_not_lt hj'))
  · by_cases hj' : j.index < h.lists.size
    · exact (Nat.ne_of_lt (hbank hj' (Nat.le_of_not_lt hi'))).symm
    · have hnew := hs.new i ⟨Nat.le_of_not_lt hi', hi⟩
      exact absurd (hnew.trans (hs.new j ⟨Nat.le_of_not_lt hj', hj⟩).symm) hside

/-! ### Copies of frames -/

/-- Names with copies of what is bound to them. -/
def copyEntries (h : Heap) : List (String × Value) → List (String × Value) × Heap
  | [] => ([], h)
  | (name, v) :: rest =>
      let copied := (h.clone v).2.copyEntries rest
      ((name, (h.clone v).1) :: copied.1, copied.2)

/-- Frames with copies of their variables. -/
def copyFrames (h : Heap) : List Frame → List Frame × Heap
  | [] => ([], h)
  | f :: rest =>
      let vars := h.copyEntries f.vars.entries
      let copied := vars.2.copyFrames rest
      ({ f with vars := ⟨vars.1⟩ } :: copied.1, copied.2)

section

variable {τ : Type} [Append τ] (r : Rendering τ)

/-- Names with the texts of what is bound to them. -/
def exhibitEntries (h : Heap) (entries : List (String × Value)) : List (String × τ) :=
  entries.map fun e => (e.1, h.render r e.2)

/-- What is seen of frames: their labels, and the names and texts of their variables. -/
def exhibit (h : Heap) (fs : List Frame) : List (String × List (String × τ)) :=
  fs.map fun f => (f.label, h.exhibitEntries r f.vars.entries)

end

/-- Every value that is bound in a frame is known. -/
def KnowsFrames (h : Heap) (fs : List Frame) : Prop :=
  ∀ f ∈ fs, ∀ e ∈ f.vars.entries, h.Knows e.2

instance (h : Heap) (fs : List Frame) : Decidable (h.KnowsFrames fs) :=
  inferInstanceAs (Decidable (∀ f ∈ fs, ∀ e ∈ f.vars.entries, h.Knows e.2))

/-- The value has lists that were made between the two heaps, and no others. -/
def Fresh (h h' : Heap) (v : Value) : Prop := ∀ j, Reaches h'.sequences v j → New h h' j

/-- What was fresh is so after the heap has grown further, and has the same texts. -/
lemma Fresh.grown {h₁ h₂ : Heap} (hfresh : Fresh h h₁ v) (hw : h₁.WellFormed) (hg : Grown h₁ h₂) :
    Fresh h h₂ v ∧ ∀ (τ : Type) [Append τ] (r : Rendering τ), h₂.render r v = h₁.render r v := by
  have hsame : ∀ j, Reaches h₁.sequences v j → h₂.contents j = h₁.contents j := fun j hj =>
    hg.kept.contents hw (hfresh j hj).2
  refine ⟨fun j hj => ?_, fun τ _ r => render_congr hsame r⟩
  have hj' := hfresh j ((reaches_congr hsame).mp hj)
  exact ⟨hj'.1, Nat.lt_of_lt_of_le hj'.2 hg.kept.size_lists_le⟩

lemma Fresh.since {h₁ : Heap} (hfresh : Fresh h₁ h' v) (hx : h₁.Extends h) : Fresh h h' v :=
  fun j hj => ⟨hx.size_lists_le.trans (hfresh j hj).1, (hfresh j hj).2⟩

lemma fresh_clone (h : Heap) (v : Value) : Fresh h (h.clone v).2 (h.clone v).1 :=
  fun j hj => (reaches_clone_iff h v j).mp hj

lemma exhibitEntries_congr {τ : Type} [Append τ] {r : Rendering τ} {entries : List (String × Value)}
    (hsame : ∀ e ∈ entries, h'.render r e.2 = h.render r e.2) :
    h'.exhibitEntries r entries = h.exhibitEntries r entries :=
  List.map_congr_left fun e he => congrArg (Prod.mk e.1) (hsame e he)

lemma exhibit_congr {τ : Type} [Append τ] {r : Rendering τ} {fs : List Frame}
    (hsame : ∀ f ∈ fs, ∀ e ∈ f.vars.entries, h'.render r e.2 = h.render r e.2) :
    h'.exhibit r fs = h.exhibit r fs :=
  List.map_congr_left fun f hf => congrArg (Prod.mk f.label) (exhibitEntries_congr (hsame f hf))

/-- Copies of variables have the same names and texts, and lists of their own. -/
theorem grown_copyEntries (hw : h.WellFormed) {entries : List (String × Value)}
    (hknown : ∀ e ∈ entries, h.Knows e.2) :
    Grown h (h.copyEntries entries).2 ∧
      (∀ e ∈ (h.copyEntries entries).1, Fresh h (h.copyEntries entries).2 e.2) ∧
      ∀ (τ : Type) [Append τ] (r : Rendering τ),
        (h.copyEntries entries).2.exhibitEntries r (h.copyEntries entries).1 =
          h.exhibitEntries r entries := by
  induction entries generalizing h with
  | nil => exact ⟨grown_refl hw, by simp [copyEntries], fun _ _ _ => rfl⟩
  | cons e rest ih =>
      obtain ⟨name, v⟩ := e
      obtain ⟨-, hrest⟩ := List.forall_mem_cons.mp hknown
      have hclone := grown_clone hw v
      obtain ⟨hgrown, hfresh, htexts⟩ := ih hclone.wellFormed fun e he =>
        hclone.kept.knows (hrest e he)
      obtain ⟨hfirst, htext⟩ := (fresh_clone h v).grown hclone.wellFormed hgrown
      refine ⟨hclone.trans hgrown, ?_, fun τ _ r => ?_⟩
      · exact List.forall_mem_cons.mpr ⟨hfirst, fun e he => (hfresh e he).since hclone.kept⟩
      · refine congrArg₂ List.cons (congrArg (Prod.mk name) ?_) ?_
        · exact (htext τ r).trans (render_clone h v r)
        · refine (htexts τ r).trans (exhibitEntries_congr fun e he => ?_)
          exact hclone.kept.render hw (hrest e he) r

/-- Copies of frames look the same, and have lists of their own. -/
theorem grown_copyFrames (hw : h.WellFormed) {fs : List Frame} (hknown : h.KnowsFrames fs) :
    Grown h (h.copyFrames fs).2 ∧
      (∀ f ∈ (h.copyFrames fs).1, ∀ e ∈ f.vars.entries, Fresh h (h.copyFrames fs).2 e.2) ∧
      ∀ (τ : Type) [Append τ] (r : Rendering τ),
        (h.copyFrames fs).2.exhibit r (h.copyFrames fs).1 = h.exhibit r fs := by
  induction fs generalizing h with
  | nil => exact ⟨grown_refl hw, by simp [copyFrames], fun _ _ _ => rfl⟩
  | cons f rest ih =>
      obtain ⟨hvars, hrest⟩ := List.forall_mem_cons.mp hknown
      obtain ⟨hcopied, hfresh, htexts⟩ := grown_copyEntries hw hvars
      obtain ⟨hgrown, hfresh', htexts'⟩ := ih hcopied.wellFormed fun f hf e he =>
        hcopied.kept.knows (hrest f hf e he)
      have hfirst : ∀ e ∈ (h.copyEntries f.vars.entries).1, _ := fun e he =>
        (hfresh e he).grown hcopied.wellFormed hgrown
      refine ⟨hcopied.trans hgrown, ?_, fun τ _ r => ?_⟩
      · refine List.forall_mem_cons.mpr ⟨fun e he => (hfirst e he).1, fun f hf e he => ?_⟩
        exact (hfresh' f hf e he).since hcopied.kept
      · refine congrArg₂ List.cons (congrArg (Prod.mk f.label) ?_) ?_
        · rw [← htexts τ r]
          exact exhibitEntries_congr fun e he => (hfirst e he).2 τ r
        · refine (htexts' τ r).trans (exhibit_congr fun f hf e he => ?_)
          exact hcopied.kept.render hw (hrest f hf e he) r

/-! ### The two sides -/

/-- What has only new lists is not affected by changes on the side of the old ones. -/
lemma Fresh.render_changed (hfresh : Fresh h h' w) (hw : h.WellFormed) (hg : Grown h h')
    (hs : Sides h h' side) (hc : ChangesOn side false h' h'') {τ : Type} [Append τ]
    (r : Rendering τ) : h''.render r w = h'.render r w := by
  have hspared := hc.spared (hg.parted hw hs)
  refine render_congr (fun j hj => ?_) r
  have hnew := hfresh j hj
  exact hspared.contents hnew.2 (by simp [hs.new j hnew])

/-- What was known is not affected by changes on the side of the new lists. -/
lemma Grown.render_changed (hg : Grown h h') (hw : h.WellFormed) (hv : h.Knows v)
    (hs : Sides h h' side) (hc : ChangesOn side true h' h'') {τ : Type} [Append τ]
    (r : Rendering τ) : h''.render r v = h.render r v := by
  have hspared := hc.spared (hg.parted hw hs)
  refine render_congr (fun j hj => ?_) r
  have hlt := hw.reaches hv hj
  rw [hspared.contents (Nat.lt_of_lt_of_le hlt hg.kept.size_lists_le) (by simp [hs.old j hlt]),
    hg.kept.contents hw hlt]

/-- Whatever has been changed on either side, further changes to lists of one side leave the lists
of the other as they are. -/
def Insulated (side : ListId → Bool) (h : Heap) : Prop :=
  ∀ c h₁ h₂, Changes h h₁ → ChangesOn side c h₁ h₂ →
    ∀ j : ListId, j.index < h₁.lists.size → side j ≠ c →
      h₂.object j = h₁.object j ∧ h₂.contents j = h₁.contents j

lemma Grown.insulated (hg : Grown h h') (hw : h.WellFormed) (hs : Sides h h' side) :
    Insulated side h' := by
  intro c h₁ h₂ hc₁ hc₂ j hj hside
  have hspared := hc₂.spared ((hg.parted hw hs).changes hc₁)
  exact ⟨hspared.objects j hj hside, hspared.contents hj hside⟩

end Heap

end Pseudocode
