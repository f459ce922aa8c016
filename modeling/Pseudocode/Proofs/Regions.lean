/-
# Regions of the heap

A region consists of some lists and some banks of cells.  It is closed if no list outside can be
reached from it: its lists occupy banks of the region, and what is held in these banks are lists of
the region.  It stays so when its lists are changed and values of the region are put into them, and
when lists are made of such values and taken into the region.

A value is in the region if it holds no other list.  So are frames, failures and requests if all
their values are.  A program cannot make up the identity of a list.  A host function could, but one
that is honest does not: it hands on lists that it was given, has found in others or has made, so
that it stays within every region that the answers to its requests are in.

The main results are

* `Heap.ChangesIn.closed`: a region stays closed under changes within it;
* `Builtins.honest_plugin`: the builtin functions are honest.
-/
import Pseudocode.Proofs.Duplicates
import Pseudocode.Proofs.Leaf

namespace Pseudocode

/-! ### Regions -/

/-- Some lists, and some banks of cells. -/
structure Region where
  lists : ListId → Prop
  banks : Nat → Prop

namespace Region

open Heap (Longer)

variable {R : Region} {h h' h'' : Heap}

/-- All lists and banks of a heap. -/
def all (h : Heap) : Region where
  lists id := id.index < h.lists.size
  banks b := b < h.banks.size

/-- The region has all lists and banks of the heap. -/
structure Covers (R : Region) (h : Heap) : Prop where
  lists : ∀ id : ListId, id.index < h.lists.size → R.lists id
  banks : ∀ b, b < h.banks.size → R.banks b

/-- The region has the lists and banks that were made between the two heaps.  So it is settled
beforehand which of the lists that a run makes are to belong to a region. -/
structure Admits (R : Region) (h h' : Heap) : Prop where
  lists : ∀ id : ListId, h.lists.size ≤ id.index → id.index < h'.lists.size → R.lists id
  banks : ∀ b, h.banks.size ≤ b → b < h'.banks.size → R.banks b

lemma covers_all (h : Heap) : (all h).Covers h := ⟨fun _ hid => hid, fun _ hb => hb⟩

lemma Covers.of_longer (hR : R.Covers h') (hl : Longer h h') : R.Covers h where
  lists id hid := hR.lists id (Nat.lt_of_lt_of_le hid hl.lists)
  banks b hb := hR.banks b (Nat.lt_of_lt_of_le hb hl.banks)

lemma Covers.admits (hR : R.Covers h') (h : Heap) : R.Admits h h' where
  lists id _ hid := hR.lists id hid
  banks b _ hb := hR.banks b hb

lemma Admits.left (ha : R.Admits h h'') (hl : Longer h' h'') : R.Admits h h' where
  lists id hid hid' := ha.lists id hid (Nat.lt_of_lt_of_le hid' hl.lists)
  banks b hb hb' := ha.banks b hb (Nat.lt_of_lt_of_le hb' hl.banks)

lemma Admits.right (ha : R.Admits h h'') (hl : Longer h h') : R.Admits h' h'' where
  lists id hid hid' := ha.lists id (hl.lists.trans hid) hid'
  banks b hb hb' := ha.banks b (hl.banks.trans hb) hb'

end Region

/-- The region has the list that the value holds, if it holds one. -/
def Value.In (R : Region) (v : Value) : Prop := ∀ id, v.listId? = some id → R.lists id

lemma Value.in_of_listId?_eq_none {R : Region} {v : Value} (h : v.listId? = none) : v.In R := by
  intro id hid
  rw [h] at hid
  cases hid

lemma Value.in_list {R : Region} {id : ListId} (hid : R.lists id) : (Value.list id).In R := by
  rintro _ ⟨⟩
  exact hid

/-! ### Changes within a region -/

namespace Heap

variable {R : Region} {h h' : Heap} {id : ListId} {v : Value}

/-- From the lists of the region no others can be reached: their banks belong to it, and so do the
lists that are held in its banks. -/
structure Closed (R : Region) (h : Heap) : Prop where
  stored : ∀ id : ListId, id.index < h.lists.size → R.lists id → R.banks (h.object id).bank
  holds : ∀ b, R.banks b → ∀ v ∈ h.cells b, v.In R

/-- A change to a list of the region that puts values of the region into it. -/
inductive ChangeIn (R : Region) (h : Heap) : Heap → Prop where
  | alloc {vs : Array Value} (hvs : ∀ v ∈ vs, v.In R) : ChangeIn R h (h.alloc vs).2
  | set {id : ListId} {v : Value} (hid : R.lists id) (i : Nat) (hv : v.In R) :
      ChangeIn R h (h.set id i v)
  | push {id : ListId} {v : Value} (hid : R.lists id) (hv : v.In R) : ChangeIn R h (h.push id v)
  | insert {id : ListId} {v : Value} (hid : R.lists id) (i : Nat) (hv : v.In R) :
      ChangeIn R h (h.insert id i v)
  | erase {id : ListId} (hid : R.lists id) (i : Nat) : ChangeIn R h (h.erase id i)

/-- Such changes one after another. -/
abbrev ChangesIn (R : Region) : Heap → Heap → Prop := Relation.ReflTransGen (ChangeIn R)

lemma ChangeIn.change (hc : ChangeIn R h h') : Change h h' := by
  cases hc with
  | alloc _ => exact .alloc _
  | set _ i _ => exact .set _ i _
  | push _ _ => exact .push _ _
  | insert _ i _ => exact .insert _ i _
  | erase _ i => exact .erase _ i

lemma ChangesIn.longer (hc : ChangesIn R h h') : Longer h h' :=
  Changes.longer (Relation.ReflTransGen.mono (fun _ _ => ChangeIn.change) _ _ hc)

/-- Working in a bank does not take values of other lists into it. -/
lemma Closed.rework (hc : Closed R h) (id : ListId) (g : Nat → Nat) {f : Array Value → Array Value}
    (hf : ∀ a : Array Value, (∀ v ∈ a, v.In R) → ∀ v ∈ f a, v.In R) :
    Closed R (h.rework id g f) := by
  refine ⟨fun i hi hR => ?_, fun b hb v hv => ?_⟩
  · rw [Heap.rework, Array.size_modify] at hi
    have hobject : (h.rework id g f).object i =
        if i = id then { h.object i with length := g (h.object i).length } else h.object i :=
      object_of_modify (f := fun o => { o with length := g o.length }) rfl hi
    have hbank : ((h.rework id g f).object i).bank = (h.object i).bank := by
      rw [hobject]
      split
      · rfl
      · rfl
    rw [hbank]
    exact hc.stored i hi hR
  · -- whichever list is changed, a bank of the region holds values of the region before
    have hcells : (h.rework id g f).cells b = h.cells b ∨
        (h.rework id g f).cells b = f (h.cells b) := by
      by_cases hlt : b < h.banks.size
      · rw [cells_of_modify (f := f) rfl hlt]
        split
        · exact .inr rfl
        · exact .inl rfl
      · refine .inl ?_
        simp [Heap.rework, cells, Array.getD_eq_getD_getElem?, hlt]
    rcases hcells with heq | heq
    · exact hc.holds b hb v (heq ▸ hv)
    · exact hf _ (hc.holds b hb) v (heq ▸ hv)

/-- A bank that is added holds values of the region. -/
lemma Closed.holds_push (hc : Closed R h) {a : Array Value} (ha : ∀ v ∈ a, v.In R)
    (hbanks : h'.banks = h.banks.push a) : ∀ b, R.banks b → ∀ v ∈ h'.cells b, v.In R := by
  intro b hb v hv
  rw [cells, hbanks, Array.getD_eq_getD_getElem?, Array.getElem?_push] at hv
  split at hv
  · exact ha v hv
  · exact hc.holds b hb v (by rwa [cells, Array.getD_eq_getD_getElem?])

/-- The cells of a list of the region hold values of the region, and so do those of a list that is
not known, since it has none. -/
lemma Closed.cells (hc : Closed R h) (hid : R.lists id) :
    ∀ v ∈ h.cells (h.object id).bank, v.In R := by
  by_cases hlt : id.index < h.lists.size
  · exact hc.holds _ (hc.stored id hlt hid)
  · rw [object_of_size_le (Nat.le_of_not_lt hlt)]
    simp [Heap.cells, Array.getD]

lemma Closed.get? (hc : Closed R h) (hid : R.lists id) {i : Nat} (hv : h.get? id i = some v) :
    v.In R := by
  unfold Heap.get? at hv
  dsimp only at hv
  split at hv
  · exact hc.cells hid v (Array.mem_of_getElem? hv)
  · cases hv

lemma mem_of_mem_extract {a : Array Value} {i j : Nat} (hv : v ∈ a.extract i j) : v ∈ a := by
  obtain ⟨k, hk, rfl⟩ := Array.mem_extract_iff_getElem.mp hv
  exact Array.getElem_mem _

/-- A list may move to a new bank of the region, with values of the region. -/
lemma Closed.relocate (hc : Closed R h) (id : ListId) (n : Nat) {a : Array Value}
    (hbank : R.banks h.banks.size) (ha : ∀ v ∈ a, v.In R) : Closed R (h.relocate id n a) := by
  refine ⟨fun i hi hR => ?_, hc.holds_push ha rfl⟩
  rw [Heap.relocate, Array.size_modify] at hi
  have hobject : (h.relocate id n a).object i =
      if i = id then ⟨h.banks.size, n⟩ else h.object i :=
    object_of_modify (f := fun _ => ⟨h.banks.size, n⟩) rfl hi
  rw [hobject]
  split
  · exact hbank
  · exact hc.stored i hi hR

lemma Closed.push (hc : Closed R h) (hid : R.lists id) (hv : v.In R)
    (ha : R.Admits h (h.push id v)) : Closed R (h.push id v) := by
  unfold Heap.push at ha ⊢
  dsimp only at ha ⊢
  split
  · refine hc.rework id (· + 1) (f := fun a => a.setIfInBounds (h.length id) v) fun a ha w hw => ?_
    rcases Array.mem_or_eq_of_mem_setIfInBounds hw with hw | rfl
    · exact ha w hw
    · exact hv
  · rename_i hspare
    rw [if_neg hspare] at ha
    refine hc.relocate id _ (ha.banks _ (Nat.le_refl _) (by simp)) fun w hw => ?_
    rw [Array.mem_append, Array.mem_push] at hw
    rcases hw with (hw | rfl) | hw
    · exact hc.cells hid w (mem_of_mem_extract hw)
    · exact hv
    · rw [(Array.mem_replicate.mp hw).2]
      exact Value.in_of_listId?_eq_none rfl

/-- The lists of the region stay closed under changes within the region, as long as new lists are
taken into it. -/
theorem ChangeIn.closed (hchange : ChangeIn R h h') (ha : R.Admits h h') (hc : Closed R h) :
    Closed R h' := by
  cases hchange with
  | @alloc vs hvs =>
      refine ⟨fun i hi hR => ?_, hc.holds_push hvs rfl⟩
      rcases object_alloc vs hi with ⟨hlt, hobject⟩ | ⟨-, hobject⟩
      · rw [hobject]
        exact hc.stored i hlt hR
      · rw [hobject]
        exact ha.banks _ (Nat.le_refl _) (by simp [Heap.alloc])
  | @set id v hid i hv =>
      unfold Heap.set
      dsimp only
      rw [modify_banks_eq_rework]
      refine hc.rework id _ fun a ha w hw => ?_
      rcases Array.mem_or_eq_of_mem_setIfInBounds hw with hw | rfl
      · exact ha w hw
      · exact hv
  | push hid hv => exact hc.push hid hv ha
  | @insert id v hid i hv =>
      -- a cell is appended first, and only this can make a bank
      have hadmits : R.Admits h (h.push id .nothing) :=
        ha.left ⟨by simp [Heap.insert], by simp [Heap.insert]⟩
      have hpush : Closed R (h.push id .nothing) :=
        hc.push hid (Value.in_of_listId?_eq_none rfl) hadmits
      unfold Heap.insert
      dsimp only
      rw [modify_banks_eq_rework]
      refine hpush.rework id _ fun a ha w hw => ?_
      simp only [Array.mem_append, Array.mem_push] at hw
      rcases hw with ((hw | rfl) | hw) | hw
      · exact ha w (mem_of_mem_extract hw)
      · exact hv
      · exact ha w (mem_of_mem_extract hw)
      · exact ha w (mem_of_mem_extract hw)
  | @erase id hid i =>
      refine hc.rework id (· - 1) (f := fun a =>
        a.extract 0 i ++ a.extract (i + 1) (h.length id) ++ a.extract (h.length id - 1) a.size)
        fun a ha w hw => ?_
      simp only [Array.mem_append] at hw
      rcases hw with (hw | hw) | hw
      · exact ha w (mem_of_mem_extract hw)
      · exact ha w (mem_of_mem_extract hw)
      · exact ha w (mem_of_mem_extract hw)

theorem ChangesIn.closed (hchanges : ChangesIn R h h') (ha : R.Admits h h') (hc : Closed R h) :
    Closed R h' := by
  induction hchanges with
  | refl => exact hc
  | tail hfirst hlast ih =>
      have hfirst : Longer h _ := ChangesIn.longer hfirst
      exact hlast.closed (ha.right hfirst) (ih (ha.left hlast.change.longer))

/-- A region that has all lists is closed. -/
lemma WellFormed.closed (hw : h.WellFormed) (hR : R.Covers h) : Closed R h where
  stored id hid _ := hR.banks _ (hw.bank _ (object_of_lt hid).1)
  holds b _ v hv := by
    by_cases hb : b < h.banks.size
    · exact fun id hid =>
        hR.lists id (hw.known _ (cells_of_lt hb).1 v (Array.mem_toList_iff.mpr hv) id hid)
    · simp [Heap.cells, Array.getD, hb] at hv

/-- All lists are closed in no other than a well-formed heap. -/
lemma Closed.wellFormed (hc : Closed (.all h) h) : h.WellFormed where
  bank o ho := by
    obtain ⟨i, hi, rfl⟩ := List.getElem_of_mem ho
    have hlt : i < h.lists.size := by simpa using hi
    have hobject : h.object ⟨i⟩ = h.lists.toList[i] := by
      simp [Heap.object, Array.getD, hlt]
    have hstored := hc.stored ⟨i⟩ hlt hlt
    rwa [hobject] at hstored
  known a ha v hv := by
    obtain ⟨b, hb, rfl⟩ := List.getElem_of_mem ha
    have hlt : b < h.banks.size := by simpa using hb
    have hcells : h.cells b = h.banks.toList[b] := by
      simp [Heap.cells, Array.getD, hlt]
    exact hc.holds b hlt v (by rwa [hcells, ← Array.mem_toList_iff])

end Heap

/-! ### Frames and failures -/

variable {R : Region}

/-- The values of the frame are of the region. -/
def Frame.In (R : Region) (f : Frame) : Prop := ∀ e ∈ f.vars.entries, e.2.In R

lemma Frame.In.insert {f : Frame} (h : f.In R) (name : String) {v : Value} (hv : v.In R) :
    Frame.In R { f with vars := f.vars.insert name v } :=
  Bindings.forall_mem_insert (P := Value.In R) h hv

namespace Store

variable {s : Store} {v : Value}

/-- The values of all frames are of the region. -/
structure In (R : Region) (s : Store) : Prop where
  global : s.global.In R
  calls : ∀ f ∈ s.calls, f.In R

lemma in_empty (R : Region) : Store.empty.In R where
  global := by simp [empty, Frame.In]
  calls := by simp [empty]

lemma In.mono {R' : Region} (h : s.In R) (hR : ∀ id, R.lists id → R'.lists id) : s.In R' where
  global e he id hid := hR id (h.global e he id hid)
  calls f hf e he id hid := hR id (h.calls f hf e he id hid)

lemma In.current (h : s.In R) : s.current.In R := by
  unfold Store.current
  cases hcalls : s.calls with
  | nil => exact h.global
  | cons f fs => exact h.calls f (by simp [hcalls])

lemma In.resolve? (h : s.In R) {name : String} (hv : s.resolve? name = some v) : v.In R := by
  unfold Store.resolve? at hv
  split at hv
  · rename_i w hw
    rw [← Option.some.inj hv]
    exact h.current _ (Bindings.mem_of_find? hw)
  · exact h.global _ (Bindings.mem_of_find? hv)

lemma In.updateCurrent (h : s.In R) {f : Frame → Frame} (hf : ∀ g : Frame, g.In R → (f g).In R) :
    (s.updateCurrent f).In R := by
  obtain ⟨global, calls, depth, hdepth, next⟩ := s
  cases calls with
  | nil => exact ⟨hf _ h.global, h.calls⟩
  | cons c cs =>
      obtain ⟨hc, hcs⟩ := List.forall_mem_cons.mp h.calls
      exact ⟨h.global, List.forall_mem_cons.mpr ⟨hf c hc, hcs⟩⟩

lemma In.assign (h : s.In R) (name : String) (hv : v.In R) : (s.assign name v).In R := by
  unfold Store.assign
  dsimp only
  split
  · exact h.updateCurrent fun _ hg => hg.insert name hv
  · split
    · exact ⟨h.global.insert name hv, h.calls⟩
    · exact h.updateCurrent fun _ hg => hg.insert name hv

lemma In.bindGlobal (h : s.In R) (name : String) (hv : v.In R) : (s.bindGlobal name v).In R :=
  ⟨h.global.insert name hv, h.calls⟩

lemma In.push (h : s.In R) (label : String) {vars : Bindings Value}
    (hvars : ∀ e ∈ vars.entries, e.2.In R) : (s.push label vars).In R :=
  ⟨h.global, List.forall_mem_cons.mpr ⟨hvars, h.calls⟩⟩

lemma In.pop (h : s.In R) : s.pop.In R := by
  obtain ⟨global, calls, depth, hdepth, next⟩ := s
  cases calls with
  | nil => exact h
  | cons c cs => exact ⟨h.global, fun f hf => h.calls f (List.mem_cons_of_mem c hf)⟩

lemma In.truncate (h : s.In R) (depth : Nat) : (s.truncate depth).In R :=
  ⟨h.global, fun f hf => h.calls f (List.mem_of_mem_drop hf)⟩

end Store

/-- The frames and their lists are within the region. -/
structure Snapshot.In (R : Region) (x : Snapshot) : Prop where
  store : x.store.In R
  heap : x.heap.Closed R

namespace Failure

variable {e : Failure}

/-- The frames that the failure has taken along, if it has, are within the region. -/
def In (R : Region) (e : Failure) : Prop := ∀ x, e.stack? = some x → x.In R

lemma in_of_stack?_eq_none (h : e.stack? = none) : e.In R := by
  intro x hx
  rw [h] at hx
  cases hx

lemma In.withStack (h : e.In R) {x : Snapshot} (hx : x.In R) : (e.withStack x).In R := by
  intro y hy
  rw [stack?, fault?_withStack] at hy
  cases hf : e.fault? with
  | none => simp [hf] at hy
  | some f =>
      simp only [hf, Option.map_some, Option.bind_some] at hy
      cases hstack : f.stack with
      | none =>
          rw [hstack, Option.orElse_none, Option.some.injEq] at hy
          exact hy ▸ hx
      | some z =>
          rw [hstack, Option.orElse_some] at hy
          exact h y (by rw [stack?, hf, Option.bind_some, hstack, hy])

end Failure

/-! ### Host functions -/

/-- The values that come with the request are of the region, and so is the list that it names. -/
def Request.In (R : Region) : Request → Prop
  | .call _ args => ∀ v ∈ args, v.In R
  | .make items => ∀ v ∈ items, v.In R
  | .push id v | .insert id _ v => R.lists id ∧ v.In R
  | .erase id _ => R.lists id
  | _ => True

/-- What the answer gives to get at is within the region. -/
def Request.AnswerIn (R : Region) : (q : Request) → q.Answer → Prop
  | .call _ _, .ok v => v.In R
  | .call _ _, .error e => e.In R
  | .heap, h => Heap.Closed R h
  | .make _, id => R.lists id
  | .status, s => ∀ e, s.error = some e → e.In R
  | .snapshot, x => ∀ y, x = some y → y.In R
  | _, _ => True

/-- What is asked for and returned is within the region, as long as the answers are. -/
inductive Action.In (R : Region) : Action Value → Prop where
  | pure {v : Value} (hv : v.In R) : In R (.pure v)
  | fail {e : Failure} (he : e.In R) : In R (.fail e)
  | crash (text : String) : In R (.crash text)
  | ask {q : Request} {next : q.Answer → Action Value} (hq : q.In R)
      (hnext : ∀ answer, q.AnswerIn R answer → In R (next answer)) : In R (.ask q next)

/-- The function hands on such lists only as it was given, has found in others or has made. -/
def Native.Honest (f : Native) : Prop :=
  ∀ (R : Region) (args : List Value), (∀ v ∈ args, v.In R) → (f args).In R

/-- The functions of the plugin are honest. -/
def Plugin.Honest (p : Plugin) : Prop := ∀ f ∈ p.functions, Native.Honest f.2

/-- A function is a procedure of the program, or an honest one of the host. -/
def Function.Honest : Function → Prop
  | .host _ f => Native.Honest f
  | .declared _ _ => True

namespace Builtins

lemma in_fault (kind : FaultKind) (detail : String) :
    (Action.fault kind detail : Action Value).In R :=
  .ask trivial fun _ _ => .fail (Failure.in_of_stack?_eq_none rfl)

lemma in_error (text : String) : (Action.error text : Action Value).In R :=
  .fail (Failure.in_of_stack?_eq_none rfl)

lemma in_plain {v : Value} (h : v.listId? = none) : (Action.pure v).In R :=
  .pure (Value.in_of_listId?_eq_none h)

lemma in_withList (name what : String) {args : List Value} (hargs : ∀ v ∈ args, v.In R)
    {next : ListId → List Value → Action Value}
    (h : ∀ id rest, R.lists id → (∀ v ∈ rest, v.In R) → (next id rest).In R) :
    (withList name what args next).In R := by
  unfold withList
  split
  · rename_i id rest
    obtain ⟨hid, hrest⟩ := List.forall_mem_cons.mp hargs
    exact h id rest (hid id rfl) hrest
  · exact in_fault _ _

lemma honest_display : Native.Honest display := by
  intro R args _
  refine .ask trivial fun h _ => .ask trivial fun e _ => ?_
  cases e with
  | none => exact in_plain rfl
  | some e => exact .fail (Failure.in_of_stack?_eq_none rfl)

lemma listId?_inputValue (line : ByteString) : (inputValue line).listId? = none := by
  unfold inputValue
  repeat' split
  all_goals rfl

lemma honest_input : Native.Honest input := by
  intro R args _
  refine .ask trivial fun h _ => .ask trivial fun line _ => ?_
  cases line with
  | ok line => exact in_plain (listId?_inputValue line)
  | error e => exact .fail (Failure.in_of_stack?_eq_none rfl)

lemma honest_random : Native.Honest random := by
  intro R args _
  unfold random
  split
  · split
    · exact in_error _
    · exact .ask trivial fun k _ => in_plain rfl
  · exact in_fault _ _

lemma honest_length : Native.Honest length := by
  intro R args hargs
  exact in_withList _ _ hargs fun id _ _ _ => .ask trivial fun h _ => in_plain rfl

lemma honest_append : Native.Honest append := by
  intro R args hargs
  refine in_withList _ _ hargs fun id rest hid hrest => ?_
  cases rest with
  | nil => exact in_error _
  | cons v _ => exact .ask ⟨hid, hrest v List.mem_cons_self⟩ fun _ _ => in_plain rfl

lemma honest_insert : Native.Honest insert := by
  intro R args hargs
  refine in_withList _ _ hargs fun id rest hid hrest => ?_
  cases rest with
  | nil => exact in_error _
  | cons p rest =>
      refine .ask trivial fun h _ => ?_
      split
      · exact in_fault _ _
      · exact in_error _
      · rename_i i v _ _
        exact .ask ⟨hid, hrest v (by simp)⟩ fun _ _ => in_plain rfl

lemma honest_remove : Native.Honest remove := by
  intro R args hargs
  refine in_withList _ _ hargs fun id rest hid _ => ?_
  cases rest with
  | nil => exact in_error _
  | cons p rest =>
      refine .ask trivial fun h _ => ?_
      split
      · exact in_fault _ _
      · exact .ask hid fun _ _ => in_plain rfl

/-- The builtin functions are honest. -/
theorem honest_plugin : plugin.Honest := by
  intro f hf
  simp only [plugin, List.mem_cons, List.not_mem_nil, or_false] at hf
  rcases hf with rfl | rfl | rfl | rfl | rfl | rfl | rfl
  · exact honest_display
  · exact honest_input
  · exact honest_random
  · exact honest_length
  · exact honest_append
  · exact honest_insert
  · exact honest_remove

end Builtins

end Pseudocode
