/-
# Assignments

An assignment evaluates the position of the element that it is to write, if it is to write one, and
then its value.  Both may run procedures and host functions, which may bind names and change lists
on their own account.  Only then does the assignment store something itself.

What it stores is one binding of one name, or one element of one list; where the first element of a
list is written whose name is not bound, the name is bound to the new list as well.  An assignment
that fails stores nothing, with one exception: a name that is not bound is bound to an empty list
before the position is looked at, so that it stays bound to it when there is no such position.

The main results are

* `Session.prepares`: what an assignment does before it stores anything;
* `Machine.commits`: what it stores;
* `Session.assignment_outcome`: both together, for every assignment and every schedule.
-/
import Pseudocode.Proofs.Controls
import Pseudocode.Proofs.Honesty
import Pseudocode.Proofs.Scopes
import Pseudocode.Proofs.Taking

namespace Pseudocode

/-! ### One binding -/

lemma Bindings.get?_insert {α : Type} (b : Bindings α) (name x : String) (v : α) :
    (b.insert name v).get? x = if name = x then some v else b.get? x :=
  find?_place name x v b.entries

namespace Store

variable {s t : Store} {name : String} {v : Value}

/-- What a name is bound to in the frame at a position. -/
def bound? (s : Store) (i : Nat) (name : String) : Option Value :=
  (s.vars? i).bind (·.get? name)

lemma current_updateCurrent (s : Store) (f : Frame → Frame) :
    (s.updateCurrent f).current = f s.current := by
  unfold updateCurrent
  split
  · rename_i h
    simp [current, h]
  · rename_i c cs h
    simp [current, h]

/-- A name is found where it has been bound. -/
lemma resolve?_assign (s : Store) (name : String) (v : Value) :
    (s.assign name v).resolve? name = some v := by
  have hcurrent : (s.updateCurrent fun f => { f with vars := f.vars.insert name v }).resolve? name =
      some v := by
    simp [resolve?, current_updateCurrent, Bindings.get?_insert]
  unfold assign
  dsimp only
  split
  · exact hcurrent
  · rename_i hname
    split
    · -- the current frame has not got the name, so that it is looked up in the global one
      obtain ⟨global, calls, depth, hdepth, next⟩ := s
      cases calls with
      | nil => simp [resolve?, current, Bindings.get?_insert]
      | cons f fs =>
          simp only [Bindings.contains, current, List.headD_cons, Bool.not_eq_true,
            Option.isSome_eq_false_iff, Option.isNone_iff_eq_none] at hname
          simp [resolve?, current, hname, Bindings.get?_insert]
    · exact hcurrent

/-- The name is bound to the value now, in a frame where it can be found, and no other binding of
any frame has changed. -/
structure Rebinds (name : String) (v : Value) (s t : Store) : Prop where
  frames : t.frameIds = s.frameIds
  reads : t.resolve? name = some v
  others : ∃ i, ∀ j x, j ≠ i ∨ x ≠ name → t.bound? j x = s.bound? j x

lemma rebinds_assign (s : Store) (name : String) (v : Value) :
    Rebinds name v s (s.assign name v) where
  frames := frameIds_assign s name v
  reads := resolve?_assign s name v
  others := by
    obtain ⟨i, -, hframes⟩ := s.getElem?_assign name v
    refine ⟨i, fun j x hne => ?_⟩
    rw [bound?, bound?, vars?, vars?, hframes]
    by_cases hj : j = i
    · have hx : name ≠ x := fun h => hne.elim (absurd hj) (absurd h.symm)
      rw [if_pos hj]
      cases s.frames[j]? with
      | none => rfl
      | some f => simp [Frame.bind, Bindings.get?_insert, hx]
    · rw [if_neg hj]

end Store

/-! ### One element -/

namespace Heap

variable {h h' : Heap} {id : ListId} {v : Value} {i : Nat} {xs : List Value}

/-- The list has the value at this index now, and no other element of any list has changed. -/
structure Rewrites (id : ListId) (i : Nat) (v : Value) (h h' : Heap) : Prop where
  reads : h'.get? id i = some v
  others : ∀ j k, j ≠ id ∨ k ≠ i → h'.get? j k = h.get? j k

lemma Replaced.rewrites (hr : Replaced h id xs h') (hid : id.index < h.lists.size)
    (hi : xs[i]? = some v) (hother : ∀ k, k ≠ i → xs[k]? = (h.contents id)[k]?) :
    Rewrites id i v h h' where
  reads := by rw [get?_eq, hr.own hid, hi]
  others := by
    intro j k hne
    rw [get?_eq, get?_eq]
    by_cases hj : j = id
    · have hk : k ≠ i := hne.resolve_left (absurd hj)
      rw [hj, hr.own hid, hother k hk]
    · rw [hr.contents_ne hj]

lemma rewrites_set (ht : h.Tidy) (hid : id.index < h.lists.size) (hi : i < h.length id)
    (v : Value) : Rewrites id i v h (h.set id i v) := by
  rw [← ht.length_contents id] at hi
  refine (replaced_set ht id i v).rewrites hid (by simp [hi]) fun k hk => ?_
  rw [List.getElem?_set_ne (Ne.symm hk)]

lemma rewrites_push (ht : h.Tidy) (hid : id.index < h.lists.size) (v : Value) :
    Rewrites id (h.length id) v h (h.push id v) := by
  rw [← ht.length_contents id]
  refine (replaced_push ht id v).rewrites hid (by simp) fun k hk => ?_
  rcases Nat.lt_or_gt_of_ne hk with hlt | hgt
  · rw [List.getElem?_append_left hlt]
  · rw [List.getElem?_eq_none (by simp; omega), List.getElem?_eq_none (Nat.le_of_lt hgt)]

/-- A new empty list adds no elements. -/
lemma get?_alloc_nil (ht : h.Tidy) (j : ListId) (k : Nat) :
    (h.alloc #[]).2.get? j k = h.get? j k := by
  have hcontents : (h.alloc #[]).2.contents j = h.contents j := by
    rw [← getD_sequences, sequences_alloc ht, ← getD_sequences]
    simp only [List.getD_eq_getElem?_getD]
    rcases Nat.lt_trichotomy j.index h.sequences.length with hj | hj | hj
    · rw [List.getElem?_append_left hj]
    · simp [hj]
    · rw [List.getElem?_eq_none (by simp at hj ⊢; omega), List.getElem?_eq_none (Nat.le_of_lt hj)]
  rw [get?_eq, get?_eq, hcontents]

end Heap

/-! ### What is stored -/

/-- The value is stored in the target, and nothing else changes. -/
inductive Stores (v : Value) (w w' : Snapshot) : Target → Prop where
  /-- A name is bound. -/
  | binding {name : String} (store : w.store.Rebinds name v w'.store) (heap : w'.heap = w.heap) :
      Stores v w w' (.variable name)
  /-- An element of a list that is there is written, or one is appended. -/
  | element {span : Span} {name : String} {p : Int} {id : ListId}
      (list : w.store.resolve? name = some (.list id)) (first : 1 ≤ p)
      (store : w'.store = w.store) (heap : w.heap.Rewrites id (p - 1).toNat v w'.heap) :
      Stores v w w' (.element span name p)
  /-- The first element is written to a new list, to which the name is bound. -/
  | creation {span : Span} {name : String} {id : ListId}
      (unbound : w.store.resolve? name = none) (new : id.index = w.heap.lists.size)
      (store : w.store.Rebinds name (.list id) w'.store) (heap : w.heap.Rewrites id 0 v w'.heap) :
      Stores v w w' (.element span name 1)

/-- The target is an element, and not the first one, of a name that is not bound. -/
def Astray (w : Snapshot) : Target → Prop
  | .variable _ => False
  | .element _ name p => w.store.resolve? name = none ∧ p ≠ 1

namespace Machine

variable {m m' : Machine} {span : Span} {name : String} {id : ListId} {p : Int} {v : Value}

/-- Evaluating the target as an expression gives this value. -/
def ReadsBack (m : Machine) (v : Value) : Target → Prop
  | .variable name => ∀ span, m.readVariable span name = m.give v
  | .element _ name p => ∀ span index, position? index = some p →
      m.readElement span name index = m.give v

lemma readsBack_element (hlist : m.store.resolve? name = some (.list id)) (hp : 1 ≤ p)
    (hv : m.heap.get? id (p - 1).toNat = some v) : m.ReadsBack v (.element span name p) := by
  intro span' index hindex
  simp only [readElement, hindex, hlist, hp, if_true, hv]

/-- What comes of storing a value in a target. -/
inductive Commits (v : Value) (t : Target) (w : Snapshot) (m' : Machine) : Prop where
  | stores (control : m'.control = .complete .next) (stores : Stores v w m'.snapshot t)
      (reads : m'.ReadsBack v t)
  /-- It fails, and nothing is stored. -/
  | fails (control : m'.control.isBroken = true) (astray : ¬ Astray w t)
      (keeps : m'.snapshot = w)
  /-- It fails, and a name that was not bound is now bound to an empty list. -/
  | strays {span : Span} {name : String} {p : Int} (target : t = .element span name p)
      (control : m'.control.isBroken = true) (astray : Astray w t)
      (store : w.store.Rebinds name (.list ⟨w.heap.lists.size⟩) m'.store)
      (heap : m'.heap = (w.heap.alloc #[]).2)

/-- The positions of a list, and the one after the last, can be written. -/
lemma writeElement_of_le (span : Span) (v : Value) (ht : m.heap.Tidy)
    (hid : id.index < m.heap.lists.size) (hp : 1 ≤ p) (hle : p ≤ m.heap.length id + 1) :
    (m.writeElement span id p v).control = .complete .next ∧
      (m.writeElement span id p v).store = m.store ∧
      m.heap.Rewrites id (p - 1).toNat v (m.writeElement span id p v).heap := by
  unfold writeElement
  dsimp only
  split
  · exact ⟨rfl, rfl, Heap.rewrites_set ht hid (by omega) v⟩
  · have hlast : (p - 1).toNat = m.heap.length id := by omega
    rw [if_pos (by omega), hlast]
    exact ⟨rfl, rfl, Heap.rewrites_push ht hid v⟩

lemma writeElement_of_not (hp : ¬ (1 ≤ p ∧ p ≤ m.heap.length id + 1)) :
    m.writeElement span id p v = m.badPosition span id p := by
  unfold writeElement
  dsimp only
  rw [if_neg (by omega), if_neg (by omega)]

/-- A name is bound to a new empty list. -/
def opened (m : Machine) (name : String) : Machine :=
  { m with
    heap := (m.heap.alloc #[]).2
    store := m.store.assign name (.list ⟨m.heap.lists.size⟩) }

/-! The three cases of a name whose element is to be written. -/

lemma commit_bound (hname : m.store.resolve? name = some (.list id)) :
    m.commit v (.element span name p) = m.writeElement span id p v := by
  simp only [commit, listForWriting, hname]

lemma commit_unbound (hname : m.store.resolve? name = none) :
    m.commit v (.element span name p) =
      (m.opened name).writeElement span ⟨m.heap.lists.size⟩ p v := by
  simp only [commit, listForWriting, hname, Heap.alloc, opened]

lemma commit_not_list {w : Value} (hname : m.store.resolve? name = some w)
    (hlist : ∀ id, w ≠ .list id) :
    m.commit v (.element span name p) = m.raise .notAList name span := by
  cases w with
  | list id => exact absurd rfl (hlist id)
  | _ => simp only [commit, listForWriting, hname]

lemma length_opened (m : Machine) (name : String) :
    (m.opened name).heap.length ⟨m.heap.lists.size⟩ = 0 := by
  simp [opened, Heap.alloc, Heap.length, Heap.object, Array.getD_eq_getD_getElem?]

/-- Writing an element of a list that a name is bound to. -/
lemma commits_bound (ht : m.heap.Tidy) (hname : m.store.resolve? name = some (.list id))
    (hid : id.index < m.heap.lists.size) :
    Commits v (.element span name p) m.snapshot (m.commit v (.element span name p)) := by
  rw [commit_bound hname]
  by_cases hp : 1 ≤ p ∧ p ≤ m.heap.length id + 1
  · obtain ⟨hcontrol, hstore, hheap⟩ := writeElement_of_le span v ht hid hp.1 hp.2
    exact .stores hcontrol (.element hname hp.1 hstore hheap)
      (readsBack_element (by rw [hstore, hname]) hp.1 hheap.reads)
  · rw [writeElement_of_not hp]
    exact .fails rfl (fun h => absurd (hname.symm.trans h.1) (by simp)) rfl

/-- Writing an element of a list that a name is to be bound to. -/
lemma commits_unbound (ht : m.heap.Tidy) (hname : m.store.resolve? name = none) :
    Commits v (.element span name p) m.snapshot (m.commit v (.element span name p)) := by
  have hrebinds := m.store.rebinds_assign name (.list ⟨m.heap.lists.size⟩)
  have hempty := m.length_opened name
  rw [commit_unbound hname]
  by_cases hp : p = 1
  · subst hp
    have ht' : (m.opened name).heap.Tidy := Heap.tidy_alloc ht #[]
    have hnew : (⟨m.heap.lists.size⟩ : ListId).index < (m.opened name).heap.lists.size := by
      simp [opened, Heap.alloc]
    obtain ⟨hcontrol, hstore, hwrites⟩ := writeElement_of_le span v ht' hnew (p := 1) (by omega)
      (by omega)
    generalize (m.opened name).writeElement span _ 1 v = m' at hcontrol hstore hwrites ⊢
    have hstores : m.store.Rebinds name (.list ⟨m.heap.lists.size⟩) m'.store := hstore ▸ hrebinds
    refine .stores hcontrol (.creation hname rfl hstores ⟨hwrites.reads, fun j k hne => ?_⟩)
      (readsBack_element hstores.reads (by omega) hwrites.reads)
    exact (hwrites.others j k hne).trans (Heap.get?_alloc_nil ht j k)
  · rw [writeElement_of_not (by omega)]
    exact .strays rfl rfl ⟨hname, hp⟩ hrebinds rfl

lemma isResult_commit (m : Machine) (v : Value) (t : Target) :
    (m.commit v t).control.isResult = true := by
  cases t with
  | «variable» name => rfl
  | element span name p =>
      simp only [commit]
      split
      · unfold writeElement
        dsimp only
        repeat' split
        all_goals rfl
      · rfl

/-- What an assignment stores when its value is there. -/
theorem commits (ht : m.heap.Tidy) (t : Target)
    (hknown : ∀ name id, m.store.resolve? name = some (.list id) →
      id.index < m.heap.lists.size) :
    Commits v t m.snapshot (m.commit v t) := by
  cases t with
  | «variable» name =>
      have hrebinds := m.store.rebinds_assign name v
      refine .stores rfl (.binding hrebinds rfl) fun span => ?_
      simp only [commit, readVariable, hrebinds.reads]
  | element span name p =>
      cases hname : m.store.resolve? name with
      | none => exact commits_unbound ht hname
      | some w =>
          by_cases hlist : ∃ id, w = .list id
          · obtain ⟨id, rfl⟩ := hlist
            exact commits_bound ht hname (hknown name id hname)
          · rw [commit_not_list hname fun id heq => hlist ⟨id, heq⟩]
            exact .fails rfl (fun h => absurd (hname.symm.trans h.1) (by simp)) rfl

end Machine

/-! ### What is evaluated before -/

/-- The name that can be assigned to through an expression. -/
def Node.assignable? : Node → Option String
  | .identifier _ name => some name
  | .element _ target _ => target.map (·.name)
  | _ => none

namespace Session

open Machine

variable {a c : Session} {K : List Pending} {es : List Event} {target value n : Node}
  {p : Pending} {span : Span}

/-- The expression `n` is evaluated for the task `p` above the tasks `K`: this begins in `s`, where
frames and lists are as in `r`, and `t` has what comes of it. -/
structure Evaluates (n : Node) (p : Pending) (K : List Pending) (r s t : Session) : Prop where
  world : s.machine.snapshot = r.machine.snapshot
  control : s.machine.control = .eval n
  pending : s.machine.pending = p :: K
  settles : Settles (p :: K) s t
  result : t.machine.control.isResult = true

/-- What an assignment evaluates from its beginning in `a` until, in `c`, something is to be stored
or there is nothing to store. -/
inductive Prepares (target value : Node) (K : List Pending) (a c : Session) : Prop where
  /-- Nothing, since the target is not one that can be assigned to. -/
  | refuses (target : target.assignable? = none) (machine : c.machine = a.machine)
  /-- Only the position, since there is no such position, or its evaluation fails. -/
  | index {span : Span} {list : Ident} {index : Node} {s : Session}
      (target : target = .element span (some list) index)
      (evaluates : Evaluates index (.targetIndex span list.name value) K a s c)
      (vain : ∀ v, c.machine.control = .value v → position? v = none)
  /-- The value for a name. -/
  | binding {span : Span} {name : String} {s : Session} (target : target = .identifier span name)
      (evaluates : Evaluates value (.assign (.variable name)) K a s c)
  /-- The position of an element, and then the value for the element. -/
  | element {span : Span} {list : Ident} {index : Node} {p : Int} {v : Value} {s t u : Session}
      (target : target = .element span (some list) index)
      (first : Evaluates index (.targetIndex span list.name value) K a s t)
      (control : t.machine.control = .value v) (position : position? v = some p)
      (second : Evaluates value (.assign (.element span list.name p)) K t u c)

/-- What begins to be evaluated with a step has its result before all is over. -/
lemma EndsAfter.evaluates {r : Session} {es₁ : List Event} (hs : Sound a.machine)
    (h : EndsAfter K a es es₁) (hworld : (a.after es₁).proceed.machine.snapshot = r.machine.snapshot)
    (hcontrol : (a.after es₁).proceed.machine.control = .eval n)
    (hpending : (a.after es₁).proceed.machine.pending = p :: K) :
    ∃ es₂, EndsAfter K a es es₂ ∧ Evaluates n p K r (a.after es₁).proceed (a.after es₂) := by
  obtain ⟨es', rfl, hends⟩ := h.goes (not_resolved_of_pending hpending)
  have hsound : Sound (a.after es₁).proceed.machine :=
    (proceed_move false (sound_after hs es₁)).sound (sound_after hs es₁)
  obtain ⟨es₂, htaken, hrest⟩ := hends.taken (p := p) hsound (by rw [hpending])
  have hgoes : (a.after es₁).step = (a.after es₁).proceed := step_of_not_reporting h.1
  have hafter : (a.after es₁).proceed.after es₂ = a.after (es₁ ++ Event.step :: es₂) := by
    rw [after_append, after_cons, happen, hgoes]
  refine ⟨es₁ ++ Event.step :: es₂, EndsAfter.append (EndsAfter.cons (by rwa [happen, hgoes])), ?_⟩
  rw [← hafter]
  exact ⟨hworld, hcontrol, hpending, ⟨es₂, htaken.within, rfl, htaken.pending⟩, htaken.result⟩

/-- What comes of the evaluation of a value that is to be stored. -/
lemma assign_handed {s : Session} {t : Target} (hs : Sound s.machine)
    (hpending : s.machine.pending = .assign t :: K)
    (hresult : s.machine.control.isResult = true) :
    (∃ v, s.machine.control = .value v ∧
      s.proceed.machine = ({ s.machine with pending := K } : Machine).commit v t) ∨
    s.machine.control.isBroken = true ∧ s.proceed.machine = { s.machine with pending := K } := by
  cases handed hs (p := .assign t) rfl hpending hresult with
  | value control _ proceed => exact .inl ⟨_, control, proceed⟩
  | completion _ takes _ => cases takes
  | broken control proceed => exact .inr ⟨control, proceed⟩

/-- When it stores something, or fails to do so, the assignment is over. -/
lemma resolved_of_assign {s : Session} {t : Target} (hs : Sound s.machine)
    (hpending : s.machine.pending = .assign t :: K)
    (hresult : s.machine.control.isResult = true) : Resolved K s.proceed := by
  rcases assign_handed hs hpending hresult with ⟨v, -, hproceed⟩ | ⟨hbroken, hproceed⟩
  · rw [Resolved, hproceed, (store_commit _ v t).2]
    exact ⟨rfl, isResult_commit _ v t⟩
  · rw [Resolved, hproceed]
    exact ⟨rfl, Control.isResult_of_isBroken hbroken⟩

/-- What an assignment does before it stores anything, if it is about to do so. -/
theorem prepares (hs : Sound a.machine)
    (hc : a.machine.control = .exec (.assignment span target value))
    (hends : Ends a.machine.pending a es) :
    Prepares target value a.machine.pending a (a.after es) ∧
      (a.after es).controller.reporting = false := by
  obtain ⟨es₁, hmachine, hafter⟩ := hends.begin (by simp [hc]) (by simp [hc])
  have hproceed : (a.after es₁).proceed.machine = a.machine.assign target value := by
    simp only [Session.proceed, hmachine, hc, exec]
  have hrefuses : target.assignable? = none →
      Resolved a.machine.pending (a.after es₁).proceed →
      Prepares target value a.machine.pending a (a.after es) ∧
        (a.after es).controller.reporting = false := by
    intro htarget hresolved
    rw [hafter.eq hresolved]
    exact ⟨.refuses htarget hmachine, hafter.1⟩
  have hvalue : ∀ {r : Session} {t : Target} {es₁ : List Event},
      EndsAfter a.machine.pending a es es₁ →
      (a.after es₁).proceed.machine.snapshot = r.machine.snapshot →
      (a.after es₁).proceed.machine.control = .eval value →
      (a.after es₁).proceed.machine.pending = .assign t :: a.machine.pending →
      Evaluates value (.assign t) a.machine.pending r (a.after es₁).proceed (a.after es) ∧
        (a.after es).controller.reporting = false := by
    intro r t es₁ hafter hworld hcontrol hpending
    obtain ⟨es₂, hafter₂, hevaluates⟩ := hafter.evaluates hs hworld hcontrol hpending
    have hresolved := resolved_of_assign (sound_after hs es₂) hevaluates.settles.choose_spec.2.2
      hevaluates.result
    rw [hafter₂.eq hresolved]
    exact ⟨hevaluates, hafter₂.1⟩
  cases target with
  | identifier span name =>
      exact (hvalue hafter (by rw [hproceed]; rfl) (by rw [hproceed]; rfl)
        (by rw [hproceed]; rfl)).imp_left (.binding rfl)
  | element span list index =>
      cases list with
      | none => exact hrefuses rfl (by rw [Resolved, hproceed]; exact ⟨rfl, rfl⟩)
      | some list =>
          obtain ⟨es₂, hafter₂, hindex⟩ := hafter.evaluates hs (r := a)
            (by rw [hproceed]; rfl) (by rw [hproceed]; rfl) (by rw [hproceed]; rfl)
          have hpending := hindex.settles.choose_spec.2.2
          cases handed (sound_after hs es₂) rfl hpending hindex.result with
          | completion _ takes _ => cases takes
          | broken control proceed =>
              have hresolved : Resolved a.machine.pending (a.after es₂).proceed := by
                rw [Resolved, proceed]
                exact ⟨rfl, Control.isResult_of_isBroken control⟩
              rw [hafter₂.eq hresolved]
              exact ⟨.index rfl hindex fun v hv => by simp [hv, Control.isBroken] at control,
                hafter₂.1⟩
          | @value v control _ proceed =>
              cases hposition : position? v with
              | none =>
                  simp only [resume, hposition] at proceed
                  have hresolved : Resolved a.machine.pending (a.after es₂).proceed := by
                    rw [Resolved, proceed]
                    exact ⟨rfl, rfl⟩
                  rw [hafter₂.eq hresolved]
                  refine ⟨.index rfl hindex fun w hw => ?_, hafter₂.1⟩
                  rw [control, Control.value.injEq] at hw
                  rwa [← hw]
              | some p =>
                  simp only [resume, hposition] at proceed
                  exact (hvalue hafter₂ (by rw [proceed]; rfl) (by rw [proceed]; rfl)
                    (by rw [proceed]; rfl)).imp_left (.element rfl hindex control hposition)
  | _ => exact hrefuses rfl (by rw [Resolved, hproceed]; exact ⟨rfl, rfl⟩)

/-- The machine of a session that has begun to run something is sound. -/
lemma Lived.sound {s : Session} (h : s.Lived) : s.machine.control = .idle ∨ Sound s.machine := by
  induction h with
  | new o => exact .inl rfl
  | launch _ h _ => exact .inr (sound_launch h)
  | @happen s _ e ih =>
      by_cases he : e = .step
      · subst he
        refine ih.imp (fun hidle => ?_) fun hs => sound_happen hs .step
        refine machine_step (P := fun m => m.control = .idle) hidle ?_ fun n hc => ?_
        · simp only [Session.proceed, hidle]
        · simp [hidle] at hc
      · refine ih.imp (fun hidle => ?_) fun hs => sound_happen hs e
        rcases happen_command s he with h | ⟨site, next, hc, -⟩
        · rw [h]
          exact hidle
        · exact absurd (hidle.symm.trans hc) (by simp)
  | hosted _ op ih =>
      refine ih.imp id fun hs => ?_
      cases hs with
      | active control fits depth => exact .active control fits depth
      | handing control fits depth => exact .handing control fits depth
      | failing control fits depth host => exact .failing control fits depth host
      | broken control fits depth => exact .broken control fits depth
      | ended control => exact .ended control

/-- A session reports a change of phase before its run goes on. -/
lemma Lived.prompt {s : Session} (h : s.Lived) : Prompt s := by
  induction h with
  | new o =>
      intro hr
      simp only [Session.new] at hr
      split at hr <;> cases hr
  | launch _ h _ => exact prompt_launch h
  | @happen s hlived e ih =>
      rcases hlived.sound with hidle | hs
      · -- without a run there is nothing to report
        have hr := ih.not_reporting (by rw [hidle]; rfl)
        by_cases he : e = .step
        · have hstay : s.happen e = s := by
            rw [he]
            refine (step_of_not_reporting hr).trans ?_
            simp only [Session.proceed, hidle]
          rwa [hstay]
        · intro hr'
          simp [reporting_of_command he, hr] at hr'
      · exact ih.happen hs e
  | hosted _ op ih => exact ih

lemma Lived.after {s : Session} (h : s.Lived) (es : List Event) : (s.after es).Lived :=
  after_induction (P := Lived) (fun _ e hs => hs.happen e) h es

lemma lived_begun {program : Program} {l : Launch} {t : Session}
    (h : launch {} program l = .ok t) : (begun program l).Lived := by
  rw [begun_eq h]
  exact .launch (.new {}) h

/-- How an assignment is over with the step from `c`. -/
inductive Concludes (K : List Pending) (c : Session) : Prop where
  /-- There is a value to be stored. -/
  | commits {v : Value} {t : Target} (control : c.machine.control = .value v)
      (pending : c.machine.pending = .assign t :: K)
      (commits : Commits v t c.machine.snapshot c.step.machine)
  /-- There is none, and nothing is stored. -/
  | fails (vain : ∀ v t, c.machine.control = .value v → c.machine.pending ≠ .assign t :: K)
      (control : c.step.machine.control.isBroken = true)
      (keeps : c.step.machine.snapshot = c.machine.snapshot)

lemma ne_value_of_isBroken {k : Control} (h : k.isBroken = true) (v : Value) : k ≠ .value v := by
  rintro rfl
  simp [Control.isBroken] at h

lemma concludes_of_evaluates {n : Node} {t : Target} {r s : Session} (hs : Sound c.machine)
    (hgoes : c.controller.reporting = false)
    (ht : c.machine.heap.Tidy)
    (hknown : ∀ name id, c.machine.store.resolve? name = some (.list id) →
      id.index < c.machine.heap.lists.size)
    (h : Evaluates n (.assign t) K r s c) : Concludes K c := by
  have hpending := h.settles.choose_spec.2.2
  have hstep := step_of_not_reporting hgoes
  rcases assign_handed hs hpending h.result with ⟨v, hcontrol, hproceed⟩ | ⟨hbroken, hproceed⟩
  · have hcommits := commits (m := { c.machine with pending := K }) (v := v) ht t hknown
    exact .commits hcontrol hpending (by rw [hstep, hproceed]; exact hcommits)
  · exact .fails (fun v _ hv => absurd hv (ne_value_of_isBroken hbroken v))
      (by rw [hstep, hproceed]; exact hbroken) (by rw [hstep, hproceed]; rfl)

/-- A target that cannot be assigned to makes the assignment fail. -/
lemma assign_of_not_assignable (m : Machine) (value : Node) (h : target.assignable? = none) :
    (m.assign target value).control.isBroken = true ∧
      (m.assign target value).snapshot = m.snapshot := by
  cases target with
  | identifier span name => simp [Node.assignable?] at h
  | element span list index =>
      cases list with
      | none => exact ⟨rfl, rfl⟩
      | some list => simp [Node.assignable?] at h
  | _ => exact ⟨rfl, rfl⟩

/-- **What an assignment stores.**  Take an assignment that is executed in any honest session, and
any schedule after which it is over with one more step.

* Before this step it has evaluated the position of the element, if it is to write one, and then
  its value, or as much of that as could be evaluated.
* If there is a value to be stored, the assignment may succeed.  The value can be read back from the
  target, and nothing else has changed: one name is bound in one frame, or one element of one list
  is written or appended, or both, where the first element is written under a name that is not
  bound.
* Or it fails, and the frames and lists are as they were left by the evaluation.
* Or it fails to write an element that is not the first one under a name that is not bound.  Then
  the name is bound to a new empty list, and nothing else has changed.
* If there is no value to be stored, it fails, and the frames and lists are as they were left by
  what could be evaluated. -/
theorem assignment_outcome (ha : a.Honest)
    (hc : a.machine.control = .exec (.assignment span target value))
    (hends : Ends a.machine.pending a es) :
    Prepares target value a.machine.pending a (a.after es) ∧
      Concludes a.machine.pending (a.after es) := by
  have hs : Sound a.machine := ha.lived.sound.resolve_left (by simp [hc])
  obtain ⟨hprepares, hgoes⟩ := prepares hs hc hends
  refine ⟨hprepares, ?_⟩
  have hsound := sound_after hs es
  have ht := (ha.after es).lived.tidy
  have hknown := (ha.after es).knows_of_resolve?
  generalize a.after es = c at hknown hprepares hsound ht hgoes
  have hstep := step_of_not_reporting hgoes
  cases hprepares with
  | binding _ hevaluates => exact concludes_of_evaluates hsound hgoes ht hknown hevaluates
  | element _ _ _ _ hevaluates => exact concludes_of_evaluates hsound hgoes ht hknown hevaluates
  | refuses htarget hmachine =>
      have hcontrol : c.machine.control = .exec (.assignment span target value) := hmachine ▸ hc
      have hproceed : c.proceed.machine = c.machine.assign target value := by
        simp only [Session.proceed, hcontrol, exec]
      obtain ⟨hbroken, hkeeps⟩ := assign_of_not_assignable c.machine value htarget
      exact .fails (fun v t hv => absurd (hcontrol.symm.trans hv) (by simp))
        (by rw [hstep, hproceed]; exact hbroken) (by rw [hstep, hproceed]; exact hkeeps)
  | index htarget hevaluates hvain =>
      have hpending := hevaluates.settles.choose_spec.2.2
      cases handed hsound rfl hpending hevaluates.result with
      | completion _ takes _ => cases takes
      | broken h hproceed =>
          exact .fails (fun v t _ => by simp [hpending]) (by rw [hstep, hproceed]; exact h)
            (by rw [hstep, hproceed]; rfl)
      | @value v hcontrol _ hproceed =>
          simp only [resume, hvain v hcontrol] at hproceed
          exact .fails (fun v t _ => by simp [hpending]) (by rw [hstep, hproceed]; rfl)
            (by rw [hstep, hproceed]; rfl)

/-- The second statement assigns to the second element of `x`, which is no list before the value has
been evaluated: that calls `f`, which binds `x` to a list with one element. -/
def overtaken : Program where
  statements := [
    .assignment .none (.identifier .none "x") (.literal .none (.text "a")),
    .assignment .none (.element .none (some ⟨.none, "x"⟩) (.literal .none (.number (.ofNat 2))))
      (.call .none (some ⟨.none, "f"⟩) [])]
  procedures := [some (.of .none (some ⟨.none, "f"⟩) [] (.of .none [
    .assignment .none (.identifier .none "x") (.list .none [.literal .none (.text "b")]),
    .return .none (.literal .none (.text "c"))]))]

/-- The session after some steps. -/
def overtakenAfter (n : Nat) : Session := (begun overtaken {}).after (List.replicate n .step)

set_option maxRecDepth 1000 in
/-- The value is appended to the list that `f` has made. -/
theorem assignment_outcome_overtaken :
    (overtakenAfter 11).Honest ∧
    (∃ span target value,
      (overtakenAfter 11).machine.control = .exec (.assignment span target value)) ∧
    Ends (overtakenAfter 11).machine.pending (overtakenAfter 11) (List.replicate 24 .step) ∧
    (overtakenAfter 11).machine.store.resolve? "x" = some (.text "a") ∧
    (overtakenAfter 35).machine.store.resolve? "x" = some (.list ⟨0⟩) ∧
    (overtakenAfter 35).machine.heap.contents ⟨0⟩ = [.text "b"] ∧
    (overtakenAfter 35).step.machine.store = (overtakenAfter 35).machine.store ∧
    (overtakenAfter 35).machine.heap.Rewrites ⟨0⟩ 1 (.text "c")
      (overtakenAfter 35).step.machine.heap := by
  have hhonest : (overtakenAfter 11).Honest := (honest_begun (by simp) rfl).after _
  have hends : Ends (overtakenAfter 11).machine.pending (overtakenAfter 11)
      (List.replicate 24 .step) := by
    refine ⟨?_, rfl, rfl⟩
    iterate 24 refine .cons (List.suffix_iff_eq_drop.mpr rfl) (not_resolved (by decide)) ?_
    exact .nil (List.suffix_iff_eq_drop.mpr rfl) (not_resolved (by decide))
  have hafter : (overtakenAfter 11).after (List.replicate 24 .step) = overtakenAfter 35 := by
    rw [overtakenAfter, overtakenAfter, ← after_append, ← List.replicate_add]
  have hlist : (overtakenAfter 35).machine.store.resolve? "x" = some (.list ⟨0⟩) := by
    decide +kernel
  have hvalue : (overtakenAfter 35).machine.control = .value (.text "c") := rfl
  have hpending : (overtakenAfter 35).machine.pending =
      .assign (.element .none "x" 2) :: (overtakenAfter 11).machine.pending := rfl
  have hcontrol : (overtakenAfter 35).step.machine.control = .complete .next := rfl
  refine ⟨hhonest, ⟨_, _, _, rfl⟩, hends, by decide +kernel, hlist, by decide +kernel, ?_⟩
  obtain ⟨-, hconcludes⟩ := assignment_outcome hhonest rfl hends
  rw [hafter] at hconcludes
  cases hconcludes with
  | fails _ control _ => simp [hcontrol, Control.isBroken] at control
  | commits control pending commits =>
      cases control.symm.trans hvalue
      cases pending.symm.trans hpending
      cases commits with
      | fails control _ _ => simp [hcontrol, Control.isBroken] at control
      | strays _ control _ _ _ => simp [hcontrol, Control.isBroken] at control
      | stores _ stores _ =>
          cases stores with
          | element list _ store heap =>
              cases list.symm.trans hlist
              exact ⟨store, heap⟩

/-- The only statement assigns to the fifth element of `x`, which is not bound. -/
def missed : Program where
  statements := [
    .assignment .none (.element .none (some ⟨.none, "x"⟩) (.literal .none (.number (.ofNat 5))))
      (.literal .none (.text "a"))]

/-- The session after some steps. -/
def missedAfter (n : Nat) : Session := (begun missed {}).after (List.replicate n .step)

/-- The assignment fails, and has bound `x` to an empty list. -/
theorem assignment_outcome_missed :
    (missedAfter 4).Honest ∧
    (∃ span target value, (missedAfter 4).machine.control =
      .exec (.assignment span target value)) ∧
    Ends (missedAfter 4).machine.pending (missedAfter 4) (List.replicate 4 .step) ∧
    (missedAfter 8).step.machine.control.isBroken = true ∧
    (missedAfter 8).machine.store.resolve? "x" = none ∧
    (missedAfter 8).step.machine.store.resolve? "x" = some (.list ⟨0⟩) ∧
    (missedAfter 8).step.machine.heap.contents ⟨0⟩ = [] := by
  refine ⟨(honest_begun (by simp) rfl).after _, ⟨_, _, _, rfl⟩, ⟨?_, rfl, rfl⟩, rfl, rfl,
    by decide +kernel, by decide +kernel⟩
  iterate 4 refine .cons (List.suffix_iff_eq_drop.mpr rfl) (not_resolved (by decide)) ?_
  exact .nil (List.suffix_iff_eq_drop.mpr rfl) (not_resolved (by decide))

end Session

end Pseudocode
