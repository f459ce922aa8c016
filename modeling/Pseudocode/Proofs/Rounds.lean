/-
# Loops over lists

A loop over a list keeps the bank of cells that the list occupied when the loop began, and the
length that it had.  Its rounds begin one after another, one for each cell of that length, and each
binds the variable of the loop to what is in its cell at that moment.  A result that is returned, a
failure and the end of the run cut this short, and nothing else does.

So the loop does not visit the elements that the list had at its beginning, whatever its body does.
It does so as long as nothing disturbs the cells, and only three things do, each done to a list that
occupies them: writing over an element, inserting one, and removing one.  Appending does not, even
if the list moves to other cells for it, and what is done to other lists does not either.

The main results are

* `Session.Lasts.rounds`: the rounds of a loop, for every schedule;
* `Session.holding_step`: a step that does not disturb a bank leaves what it holds;
* `Session.each_visits`: what has been said above.
-/
import Pseudocode.Proofs.Assignments

namespace Pseudocode

/-! ### Cells that hold their values -/

namespace Heap

variable {h h' : Heap} {bank : Nat} {vs : List Value} {id : ListId}

/-- The bank holds these values in its first cells, and they are all in use by any list that
occupies it. -/
structure Holding (h : Heap) (bank : Nat) (vs : List Value) : Prop where
  stored : bank < h.banks.size
  cells : vs <+: (h.cells bank).toList
  used : ∀ j : ListId, j.index < h.lists.size → (h.object j).bank = bank → vs.length ≤ h.length j

/-- A change in a bank spares what another bank holds, and may leave what this one holds. -/
lemma Holding.rework (hh : h.Holding bank vs) {g : Nat → Nat} {f : Array Value → Array Value}
    (hcells : (h.object id).bank = bank → vs <+: (f (h.cells bank)).toList)
    (hused : (h.object id).bank = bank → id.index < h.lists.size → vs.length ≤ g (h.length id)) :
    (h.rework id g f).Holding bank vs where
  stored := by simpa [Heap.rework] using hh.stored
  cells := by
    rw [cells_of_modify (f := f) rfl hh.stored]
    split
    · rename_i heq
      exact hcells heq
    · exact hh.cells
  used := by
    intro j hj hoccupies
    have hj' : j.index < h.lists.size := by simpa [Heap.rework] using hj
    have hobject : (h.rework id g f).object j =
        if j = id then { h.object j with length := g (h.object j).length } else h.object j :=
      object_of_modify (f := fun o => { o with length := g o.length }) rfl hj'
    rw [length, hobject]
    rw [hobject] at hoccupies
    by_cases heq : j = id
    · subst heq
      rw [if_pos rfl] at hoccupies ⊢
      exact hused hoccupies hj'
    · rw [if_neg heq] at hoccupies ⊢
      exact hh.used j hj' hoccupies

lemma Holding.elsewhere (hh : h.Holding bank vs) {g : Nat → Nat} {f : Array Value → Array Value}
    (hbank : (h.object id).bank ≠ bank) : (h.rework id g f).Holding bank vs :=
  hh.rework (fun heq => absurd heq hbank) fun heq => absurd heq hbank

lemma Holding.relocate (hh : h.Holding bank vs) {n : Nat} {a : Array Value} :
    (h.relocate id n a).Holding bank vs where
  stored := by
    simp only [Heap.relocate, Array.size_push]
    exact Nat.lt_succ_of_lt hh.stored
  cells := by
    have hcells : (h.relocate id n a).cells bank = h.cells bank := by
      simp [Heap.relocate, Heap.cells, Array.getD_eq_getD_getElem?, Array.getElem?_push,
        Nat.ne_of_lt hh.stored]
    rw [hcells]
    exact hh.cells
  used := by
    intro j hj hoccupies
    have hj' : j.index < h.lists.size := by simpa [Heap.relocate] using hj
    have hobject : (h.relocate id n a).object j =
        if j = id then ⟨h.banks.size, n⟩ else h.object j :=
      object_of_modify (f := fun _ => ⟨h.banks.size, n⟩) rfl hj'
    rw [length, hobject]
    rw [hobject] at hoccupies
    by_cases heq : j = id
    · -- the new bank is a different one
      rw [if_pos heq] at hoccupies
      exact absurd hh.stored (by rw [← hoccupies]; exact Nat.lt_irrefl _)
    · rw [if_neg heq] at hoccupies ⊢
      exact hh.used j hj' hoccupies

lemma Holding.alloc (hh : h.Holding bank vs) (ws : Array Value) :
    (h.alloc ws).2.Holding bank vs where
  stored := by
    simp only [Heap.alloc, Array.size_push]
    exact Nat.lt_succ_of_lt hh.stored
  cells := by
    rw [cells_alloc_of_lt ws hh.stored]
    exact hh.cells
  used := by
    intro j hj hoccupies
    rcases object_alloc ws hj with ⟨hlt, hobject⟩ | ⟨-, hobject⟩
    · rw [hobject] at hoccupies
      rw [length, hobject]
      exact hh.used j hlt hoccupies
    · rw [hobject] at hoccupies
      exact absurd hh.stored (by rw [← hoccupies]; exact Nat.lt_irrefl _)

/-- Appending to a list, even to one that occupies the bank, leaves what the bank holds. -/
lemma Holding.push (hh : h.Holding bank vs) (id : ListId) (v : Value) :
    (h.push id v).Holding bank vs := by
  unfold Heap.push
  dsimp only
  split
  · refine hh.rework (g := (· + 1)) (f := fun a => a.setIfInBounds (h.length id) v)
      (fun hoccupies => ?_) fun hoccupies hid => Nat.le_succ_of_le (hh.used id hid hoccupies)
    by_cases hid : id.index < h.lists.size
    · obtain ⟨rest, hrest⟩ := hh.cells
      refine ⟨rest.set (h.length id - vs.length) v, ?_⟩
      rw [Array.toList_setIfInBounds, ← hrest,
        List.set_append_right _ _ (hh.used id hid hoccupies)]
    · -- a list that is not known would have the next bank
      have hnext : (h.object id).bank = h.banks.size := by simp [object, Array.getD, hid]
      exact absurd hh.stored (by rw [← hoccupies, hnext]; exact Nat.lt_irrefl _)
  · exact hh.relocate

/-- A list that is appended to occupies the bank that it did, or a new one. -/
lemma bank_push_ne (hh : h.Holding bank vs) (hbank : (h.object id).bank ≠ bank) (v : Value) :
    ((h.push id v).object id).bank ≠ bank := by
  have hstored := (hh.push id v).stored
  by_cases hid : id.index < h.lists.size
  · unfold Heap.push
    dsimp only
    split
    · rw [object_of_modify (f := fun o => { o with length := o.length + 1 }) rfl hid, if_pos rfl]
      exact hbank
    · rw [object_of_modify (f := fun _ => ⟨h.banks.size, _⟩) rfl hid, if_pos rfl]
      exact Nat.ne_of_gt hh.stored
  · have hsize : (h.push id v).lists.size = h.lists.size := by
      simp only [Heap.push]
      split <;> simp
    have hnext : ((h.push id v).object id).bank = (h.push id v).banks.size := by
      rw [object, Array.getD, dif_neg (by rwa [hsize])]
    rw [hnext]
    exact Nat.ne_of_gt hstored

/-- What is done to lists elsewhere leaves what the bank holds. -/
lemma Holding.set (hh : h.Holding bank vs) (hbank : (h.object id).bank ≠ bank) (i : Nat)
    (v : Value) : (h.set id i v).Holding bank vs := by
  unfold Heap.set
  dsimp only
  rw [modify_banks_eq_rework]
  exact hh.elsewhere hbank

lemma Holding.insert (hh : h.Holding bank vs) (hbank : (h.object id).bank ≠ bank) (i : Nat)
    (v : Value) : (h.insert id i v).Holding bank vs := by
  unfold Heap.insert
  dsimp only
  rw [modify_banks_eq_rework]
  exact (hh.push id .nothing).elsewhere (bank_push_ne hh hbank .nothing)

lemma Holding.erase (hh : h.Holding bank vs) (hbank : (h.object id).bank ≠ bank) (i : Nat) :
    (h.erase id i).Holding bank vs :=
  hh.elsewhere (g := (· - 1)) (f := fun a =>
    a.extract 0 i ++ a.extract (i + 1) (h.length id) ++ a.extract (h.length id - 1) a.size) hbank

/-- The bank of a list holds its elements. -/
lemma Tidy.holding (ht : h.Tidy) (hid : id.index < h.lists.size) :
    h.Holding (h.object id).bank (h.contents id) where
  stored := ht.stored id hid
  cells := List.take_prefix _ _
  used := by
    intro j hj hoccupies
    rw [ht.apart j id hj hid hoccupies, ht.length_contents]

/-- A cursor finds what the bank holds. -/
lemma Holding.read? {cursor : Cursor} (hh : h.Holding cursor.bank vs)
    (hlength : cursor.length = vs.length) (i : Nat) : cursor.read? h i = vs[i]? := by
  rw [Cursor.read?, hlength]
  split
  · rename_i hi
    obtain ⟨rest, hrest⟩ := hh.cells
    have hcell : (h.cells cursor.bank)[i]? = vs[i]? := by
      rw [← Array.getElem?_toList, ← hrest, List.getElem?_append_left hi]
    rw [Array.getD_eq_getD_getElem?, hcell, List.getElem?_eq_getElem hi]
    rfl
  · rename_i hi
    exact (List.getElem?_eq_none (Nat.le_of_not_lt hi)).symm

end Heap

/-! ### What disturbs a bank -/

namespace Machine

variable (m : Machine)

/-- An expression that begins to be evaluated makes a list if it does anything to the lists. -/
lemma heap_eval (n : Node) :
    (m.eval n).heap = m.heap ∨ ∃ ws, (m.eval n).heap = (m.heap.alloc ws).2 := by
  unfold eval readVariable
  split
  case h_12 => exact .inr ⟨_, rfl⟩
  all_goals
    refine .inl ?_
    repeat' split
    all_goals rfl

/-- So does a task that goes on with a value, unless it is an assignment. -/
lemma heap_resume (v : Value) {p : Pending} (hp : ∀ target, p ≠ .assign target) :
    (m.resume v p).heap = m.heap ∨ ∃ ws, (m.resume v p).heap = (m.heap.alloc ws).2 := by
  cases p with
  | assign target => exact absurd rfl (hp target)
  | items done rest =>
      cases rest with
      | nil => exact .inr ⟨_, rfl⟩
      | cons item rest => exact .inl rfl
  | args site name done rest => exact .inl (by cases rest <;> rfl)
  | element span name =>
      refine .inl ?_
      simp only [resume, readElement]
      repeat' split
      all_goals rfl
  | _ =>
      refine .inl ?_
      simp only [resume]
      repeat' split
      all_goals rfl

end Machine

namespace Session

open Machine
open Heap (Holding)

variable {a s t c : Session} {K : List Pending} {es es' : List Event} {bank : Nat}
  {vs : List Value}

/-- What a step does to the lists, with the operations that it comes from. -/
inductive Touches (s : Session) (h' : Heap) : Prop where
  | keeps (heap : h' = s.machine.heap)
  /-- A list is made, and perhaps appended to. -/
  | allocs (ws : Array Value) (heap : h' = (s.machine.heap.alloc ws).2)
  | creates {id : ListId} (v : Value) (heap : h' = (s.machine.heap.alloc #[]).2.push id v)
  /-- A list is appended to, by an assignment or by a host function. -/
  | appends {id : ListId} (v : Value) (heap : h' = s.machine.heap.push id v)
  /-- An assignment writes over an element. -/
  | writes {span : Span} {name : String} {p : Int} {rest : List Pending} {id : ListId} {v : Value}
      (control : s.machine.control = .value v)
      (pending : s.machine.pending = .assign (.element span name p) :: rest)
      (list : s.machine.store.resolve? name = some (.list id))
      (first : 1 ≤ p) (last : p ≤ s.machine.heap.length id)
      (heap : h' = s.machine.heap.set id (p - 1).toNat v)
  /-- A host function inserts or removes an element. -/
  | inserts {site : Span} {id : ListId} {i : Nat} {v : Value} {next : Unit → Action Value}
      (control : s.machine.control = .host site (.ask (.insert id i v) next))
      (heap : h' = s.machine.heap.insert id i v)
  | removes {site : Span} {id : ListId} {i : Nat} {next : Unit → Action Value}
      (control : s.machine.control = .host site (.ask (.erase id i) next))
      (heap : h' = s.machine.heap.erase id i)

lemma Touches.makes {h' : Heap}
    (h : h' = s.machine.heap ∨ ∃ ws, h' = (s.machine.heap.alloc ws).2) : Touches s h' := by
  rcases h with h | ⟨ws, h⟩
  · exact .keeps h
  · exact .allocs ws h

lemma touches_commit {m : Machine} {v : Value} {target : Target} {rest : List Pending}
    (hheap : m.heap = s.machine.heap) (hstore : m.store = s.machine.store)
    (hc : s.machine.control = .value v) (hp : s.machine.pending = .assign target :: rest) :
    Touches s (m.commit v target).heap := by
  cases target with
  | «variable» name => exact .keeps hheap
  | element span name p =>
      have hwrite : ∀ (m : Machine) (id : ListId),
          (1 ≤ p ∧ p ≤ m.heap.length id ∧
            (m.writeElement span id p v).heap = m.heap.set id (p - 1).toNat v) ∨
          (m.writeElement span id p v).heap = m.heap.push id v ∨
          (m.writeElement span id p v).heap = m.heap := by
        intro m id
        unfold writeElement
        dsimp only
        split
        · rename_i hrange
          exact .inl ⟨hrange.1, hrange.2, rfl⟩
        · split
          · exact .inr (.inl rfl)
          · exact .inr (.inr rfl)
      cases hname : m.store.resolve? name with
      | none =>
          rw [commit_unbound hname]
          have hopened : (m.opened name).heap = (s.machine.heap.alloc #[]).2 := hheap ▸ rfl
          rcases hwrite (m.opened name) ⟨m.heap.lists.size⟩ with ⟨hfirst, hlast, -⟩ | heq | heq
          · -- there is nothing to write over in a new list
            rw [length_opened] at hlast
            omega
          · exact .creates v (hopened ▸ heq)
          · exact .allocs #[] (hopened ▸ heq)
      | some w =>
          by_cases hlist : ∃ id, w = .list id
          · obtain ⟨id, rfl⟩ := hlist
            rw [commit_bound hname]
            rw [hstore] at hname
            rcases hwrite m id with ⟨hfirst, hlast, heq⟩ | heq | heq
            · exact .writes hc hp hname hfirst (hheap ▸ hlast) (hheap ▸ heq)
            · exact .appends v (hheap ▸ heq)
            · exact .keeps (heq.trans hheap)
          · rw [commit_not_list hname fun id heq => hlist ⟨id, heq⟩]
            exact .keeps hheap

lemma touches_perform {site : Span} {q : Request} {next : q.Answer → Action Value}
    (hc : s.machine.control = .host site (.ask q next)) :
    Touches s (s.perform site q next).machine.heap := by
  cases q with
  | make items => exact .allocs items.toArray rfl
  | push id v => exact .appends v rfl
  | insert id i v => exact .inserts hc rfl
  | erase id i => exact .removes hc rfl
  | resume stepping =>
      simp only [perform]
      split
      · exact .keeps rfl
      · exact .keeps rfl
  | _ => exact .keeps rfl

lemma touches_withTask {next : Machine → Pending → Machine} {last : Session → Session}
    (hlast : (last s).machine.heap = s.machine.heap)
    (hnext : ∀ p rest, s.machine.pending = p :: rest →
      Touches s (next { s.machine with pending := rest } p).heap) :
    Touches s (s.withTask next last).machine.heap := by
  unfold withTask
  split
  · exact .keeps hlast
  · rename_i p rest hp
    exact hnext p rest hp

/-- A run that goes on touches the lists in one of these ways. -/
lemma proceed_touches (s : Session) : Touches s s.proceed.machine.heap := by
  unfold Session.proceed
  split
  · exact .keeps rfl
  · exact .keeps rfl
  · exact .keeps rfl
  · exact .keeps (s.heap_reach _)
  · exact .keeps (s.heap_pass _ _)
  · rename_i site action hc
    cases action with
    | ask q next => exact touches_perform hc
    | _ => exact .keeps rfl
  · exact .makes (heap_eval _ _)
  · exact .keeps (heap_exec _ _)
  · exact .keeps (heap_block _ _)
  · exact .keeps (heap_choose _ _)
  · exact .keeps (heap_call _ _ _ _)
  · rename_i v hc
    refine touches_withTask (s.heap_finishCompleted _) fun p rest hp => ?_
    by_cases hassign : ∃ target, p = .assign target
    · obtain ⟨target, rfl⟩ := hassign
      exact touches_commit rfl rfl hc hp
    · exact .makes (heap_resume { s.machine with pending := rest } v fun target heq =>
        hassign ⟨target, heq⟩)
  · exact touches_withTask (s.heap_finishCompleted _) fun p rest _ => .keeps (heap_proceed _ _ _ p)
  · exact touches_withTask (s.heap_finishFailed _) fun p rest _ => .keeps (heap_unwind _ _ p)
  · exact touches_withTask rfl fun p rest _ => .keeps (heap_collapse _ _ p)
  · exact .keeps rfl

/-- Whether what the run is about to do writes over an element of a list that occupies the bank,
inserts one into it or removes one from it. -/
def disturbs (bank : Nat) (s : Session) : Bool :=
  let occupies (id : ListId) := (s.machine.heap.object id).bank == bank
  match s.machine.control, s.machine.pending with
  | .value _, .assign (.element _ name p) :: _ =>
      match s.machine.store.resolve? name with
      | some (.list id) => occupies id && decide (1 ≤ p ∧ p ≤ s.machine.heap.length id)
      | _ => false
  | .host _ (.ask (.insert id _ _) _), _ => occupies id
  | .host _ (.ask (.erase id _) _), _ => occupies id
  | _, _ => false

/-- Nothing in the schedule disturbs the bank. -/
def undisturbed (bank : Nat) : Session → List Event → Bool
  | _, [] => true
  | s, e :: es => !(s.goesOn e && s.disturbs bank) && undisturbed bank (s.happen e) es

lemma undisturbed_append : undisturbed bank s (es ++ es') =
    (undisturbed bank s es && undisturbed bank (s.after es) es') := by
  induction es generalizing s with
  | nil => simp [undisturbed]
  | cons e es ih => simp only [List.cons_append, undisturbed, ih, after_cons, Bool.and_assoc]

/-- A run that goes on without disturbing the bank leaves what it holds. -/
lemma holding_proceed (hh : s.machine.heap.Holding bank vs) (hd : s.disturbs bank = false) :
    s.proceed.machine.heap.Holding bank vs := by
  generalize hheap : s.proceed.machine.heap = h'
  cases hheap ▸ s.proceed_touches with
  | keeps heap => exact heap ▸ hh
  | allocs ws heap => exact heap ▸ hh.alloc ws
  | creates v heap => exact heap ▸ (hh.alloc #[]).push _ v
  | appends v heap => exact heap ▸ hh.push _ v
  | writes control pending list first last heap =>
      refine heap ▸ hh.set (fun heq => ?_) _ _
      simp [disturbs, control, pending, list, first, last, heq] at hd
  | inserts control heap =>
      refine heap ▸ hh.insert (fun heq => ?_) _ _
      simp [disturbs, control, heq] at hd
  | removes control heap =>
      refine heap ▸ hh.erase (fun heq => ?_) _
      simp [disturbs, control, heq] at hd

lemma holding_happen {e : Event} (hh : s.machine.heap.Holding bank vs)
    (hd : (s.goesOn e && s.disturbs bank) = false) :
    (s.happen e).machine.heap.Holding bank vs := by
  rcases happen_cases s e with ⟨hgoes, heq⟩ | ⟨-, hside⟩
  · rw [heq]
    exact holding_proceed hh (by simpa [hgoes] using hd)
  · generalize s.happen e = t at hside ⊢
    cases hside with
    | _ => exact hh

/-- So does a schedule in which nothing disturbs it. -/
lemma holding_after (hh : s.machine.heap.Holding bank vs) (hd : undisturbed bank s es = true) :
    (s.after es).machine.heap.Holding bank vs := by
  induction es generalizing s with
  | nil => exact hh
  | cons e es ih =>
      simp only [undisturbed, Bool.and_eq_true, Bool.not_eq_true'] at hd
      exact ih (holding_happen hh hd.1) hd.2

/-! ### The rounds of a loop -/

/-- The round at an index of a loop over a list begins with the next step. -/
structure Begins (var : String) (cursor : Cursor) (body : Block) (K : List Pending) (i : Nat)
    (s : Session) : Prop where
  control : s.machine.control = .complete .next
  pending : s.machine.pending = .each var cursor i body :: K
  more : i < cursor.length
  going : s.controller.cancelled = false
  goes : s.controller.reporting = false

/-- The rounds of a loop over a list that begin in the course of a schedule, the one at the given
index being the next to begin. -/
inductive Rounds (var : String) (cursor : Cursor) (body : Block) (K : List Pending) :
    Nat → Session → List Event → List Session → Prop where
  | none {i : Nat} {s : Session} {es : List Event}
      (within : Within (.each var cursor i body :: K) s es) : Rounds var cursor body K i s es []
  | next {i : Nat} {s : Session} {es es' : List Event} {ss : List Session}
      (begins : Begins var cursor body K i (s.after es))
      (within : Within (.each var cursor i body :: K) s es)
      (rest : Rounds var cursor body K (i + 1) (s.after es).step es' ss) :
      Rounds var cursor body K i s (es ++ Event.step :: es') (s.after es :: ss)

/-- A loop of `n` rounds, of which `i` have begun, is over with the next step. -/
inductive Finishes (n i : Nat) (s : Session) : Prop where
  | through (all : i = n) (control : s.step.machine.control = .complete .next)
  /-- A result is returned. -/
  | returns {v : Value} (control : s.machine.control = .complete (.returned v))
      (control' : s.step.machine.control = .complete (.returned v))
  /-- There is a failure or a breakdown. -/
  | breaks (control : s.machine.control.isBroken = true)
      (control' : s.step.machine.control = s.machine.control)
  /-- The run has been told to end. -/
  | stops (cancelled : s.controller.cancelled = true)
      (control : s.step.machine.control = .fail .stopped)

variable {var : String} {cursor : Cursor} {body : Block} {i k : Nat} {ss : List Session}

/-- A round begins by binding the variable to what is in the cell. -/
lemma Begins.step (h : Begins var cursor body K i s) :
    ∃ v, cursor.read? s.machine.heap i = some v ∧
      s.step.machine = { s.machine with
        store := s.machine.store.assign var v
        pending := .each var cursor (i + 1) body :: K
        control := .block body } := by
  refine ⟨_, by rw [Cursor.read?, if_pos h.more], ?_⟩
  rw [step_of_not_reporting h.goes, proceed_complete h.control, withTask_cons h.pending]
  simp only [Machine.proceed, Cursor.read?, if_pos h.more, h.going]
  rfl

/-- When its turn has come, a loop begins another round or is over. -/
lemma begins_or_finishes (hs : Sound s.machine) (hi : i ≤ cursor.length)
    (hpending : s.machine.pending = .each var cursor i body :: K)
    (hresult : s.machine.control.isResult = true) (hgoes : s.controller.reporting = false) :
    Begins var cursor body K i s ∨ Resolved K s.step ∧ Finishes cursor.length i s := by
  have hstep := step_of_not_reporting hgoes
  cases handed hs rfl hpending hresult with
  | value _ takes _ => cases takes
  | broken control proceed =>
      refine .inr ⟨?_, .breaks control (by rw [hstep, proceed])⟩
      rw [Resolved, hstep, proceed]
      exact ⟨rfl, Control.isResult_of_isBroken control⟩
  | @completion k control _ proceed =>
      cases k with
      | returned v =>
          simp only [Machine.proceed] at proceed
          refine .inr ⟨?_, .returns control (by rw [hstep, proceed]; rfl)⟩
          rw [Resolved, hstep, proceed]
          exact ⟨rfl, rfl⟩
      | next =>
          by_cases hmore : i < cursor.length
          · cases hgoing : s.controller.cancelled with
            | false => exact .inl ⟨control, hpending, hmore, hgoing, hgoes⟩
            | true =>
                simp only [Machine.proceed, Cursor.read?, if_pos hmore, hgoing, if_true] at proceed
                refine .inr ⟨?_, .stops hgoing (by rw [hstep, proceed]; rfl)⟩
                rw [Resolved, hstep, proceed]
                exact ⟨rfl, rfl⟩
          · simp only [Machine.proceed, Cursor.read?, if_neg hmore] at proceed
            refine .inr ⟨?_, .through (by omega) (by rw [hstep, proceed]; rfl)⟩
            rw [Resolved, hstep, proceed]
            exact ⟨rfl, rfl⟩

/-- As long as the loop is not over, its rounds begin one after another. -/
theorem Lasts.rounds (hs : Sound s.machine) (hi : i ≤ cursor.length) (h : Lasts K s es)
    (hp : .each var cursor i body :: K <:+ s.machine.pending) :
    ∃ ss, Rounds var cursor body K i s es ss := by
  induction hn : es.length using Nat.strong_induction_on generalizing s i es with
  | _ n ih =>
      rcases within_or_taken hs hp es with hwithin | ⟨es₁, es₂, rfl, htaken⟩
      · exact ⟨[], .none hwithin⟩
      · have hrest : Lasts K (s.after es₁).step es₂ := h.drop.tail
        rcases begins_or_finishes (sound_after hs es₁) hi htaken.pending htaken.result
          htaken.goes with hbegins | ⟨hresolved, -⟩
        · obtain ⟨v, -, hstep⟩ := hbegins.step
          have hsound : Sound (s.after es₁).step.machine := sound_happen (sound_after hs es₁) .step
          obtain ⟨ss, hss⟩ := ih es₂.length (by simp [← hn]; omega) hsound hbegins.more hrest
            (by rw [hstep]) rfl
          exact ⟨_, .next hbegins htaken.within hss⟩
        · exact absurd hresolved (hrest.before [] List.nil_prefix)

/-- The rounds are counted. -/
lemma Rounds.begins (h : Rounds var cursor body K i s es ss) (ht : ss[k]? = some t) :
    Begins var cursor body K (i + k) t := by
  induction h generalizing k with
  | none _ => simp at ht
  | @next i s es es' ss begins _ _ ih =>
      cases k with
      | zero =>
          rw [List.getElem?_cons_zero, Option.some.injEq] at ht
          exact ht ▸ begins
      | succ k =>
          rw [List.getElem?_cons_succ] at ht
          rw [show i + (k + 1) = i + 1 + k by omega]
          exact ih ht

lemma Rounds.length_le (h : Rounds var cursor body K i s es ss) (hi : i ≤ cursor.length) :
    i + ss.length ≤ cursor.length := by
  induction h with
  | none _ => exact hi
  | next begins _ _ ih =>
      have hle := ih begins.more
      rw [List.length_cons]
      omega

/-- What the bank holds is there when a round begins, if nothing has disturbed it. -/
lemma Rounds.holding (h : Rounds var cursor body K i s es ss)
    (hh : s.machine.heap.Holding bank vs) (hd : undisturbed bank s es = true)
    (ht : ss[k]? = some t) :
    t.machine.heap.Holding bank vs := by
  induction h generalizing k with
  | none _ => simp at ht
  | @next i s es es' ss _ _ _ ih =>
      simp only [undisturbed_append, undisturbed, Bool.and_eq_true, Bool.not_eq_true'] at hd
      obtain ⟨hbefore, hstep, hafter⟩ := hd
      have hbegins := holding_after hh hbefore
      cases k with
      | zero =>
          rw [List.getElem?_cons_zero, Option.some.injEq] at ht
          exact ht ▸ hbegins
      | succ k =>
          rw [List.getElem?_cons_succ] at ht
          exact ih (holding_happen hbegins hstep) hafter ht

/-- A loop is over when all its rounds are, or when a result is returned, something fails, or the
run is to end. -/
lemma Rounds.finishes (hs : Sound s.machine) (h : Rounds var cursor body K i s es ss)
    (hi : i ≤ cursor.length) (hresolved : Resolved K (s.after es).step) :
    Finishes cursor.length (i + ss.length) (s.after es) := by
  induction h with
  | @none i s es within =>
      have hsound := sound_after hs es
      rcases step_taken hsound (within es List.prefix_rfl) with
        hstay | ⟨hpending, hresult, hgoes⟩
      · rw [hresolved.1] at hstay
        exact absurd hstay.length_le (Nat.not_le.mpr (Nat.lt_succ_self _))
      · rcases begins_or_finishes hsound hi hpending hresult hgoes with
          hbegins | ⟨-, hfinishes⟩
        · obtain ⟨v, -, hstep⟩ := hbegins.step
          exact absurd hresolved (not_resolved_of_pending (by rw [hstep]))
        · exact hfinishes
  | @next i s es es' ss begins _ _ ih =>
      have hsound : Sound (s.after es).step.machine := sound_happen (sound_after hs es) .step
      have hafter : s.after (es ++ Event.step :: es') = (s.after es).step.after es' :=
        after_append s es (.step :: es')
      rw [hafter] at hresolved ⊢
      rw [List.length_cons, show i + (ss.length + 1) = i + 1 + ss.length by omega]
      exact ih hsound begins.more hresolved

/-- **What a loop over a list visits.**  Take a session that has evaluated the source of a loop to a
list, and any schedule from the beginning of the loop on during which it is not over.

* The rounds of the loop begin one after another, at most one for each element that the list has at
  the beginning of the loop.
* Each round begins by binding the variable of the loop to what the cell at its index has then, of
  the cells that the list occupied at the beginning.  No other binding changes with it.
* As long as no step writes over, inserts or removes an element of a list that occupies these cells,
  what is found there are the elements that the list had at the beginning.
* If the loop is over with the next step, then all rounds have begun, or a result is returned, or
  there is a failure or a breakdown, or the run has been told to end. -/
theorem each_visits {id : ListId} {span : Span} (hlived : a.Lived)
    (hc : a.machine.control = .value (.list id))
    (hp : a.machine.pending = .eachSource span var body :: K) (hlasts : Lasts K a.step es) :
    let cursor := Cursor.start a.machine.heap id
    let vs := a.machine.heap.contents id
    ∃ ss, Rounds var cursor body K 0 a.step es ss ∧ ss.length ≤ vs.length ∧
      (∀ k t, ss[k]? = some t → ∃ v, cursor.read? t.machine.heap k = some v ∧
        t.machine.store.Rebinds var v t.step.machine.store ∧
        t.step.machine.heap = t.machine.heap ∧ t.step.machine.control = .block body) ∧
      (undisturbed cursor.bank a.step es = true →
        ∀ k t, ss[k]? = some t → cursor.read? t.machine.heap k = vs[k]?) ∧
      (Resolved K (a.step.after es).step → Finishes vs.length ss.length (a.step.after es)) := by
  intro cursor vs
  have hs : Sound a.machine := hlived.sound.resolve_left (by simp [hc])
  have hs' : Sound a.step.machine := sound_happen hs .step
  have ht := hlived.tidy
  have hstep : a.step.machine = { a.machine with
      control := .complete .next, pending := .each var cursor 0 body :: K } := by
    rw [step_of_not_reporting (hlived.prompt.not_reporting (by rw [hc]; rfl)), proceed_value hc,
      withTask_cons hp]
    rfl
  have hlength : cursor.length = vs.length := (ht.length_contents id).symm
  obtain ⟨ss, hss⟩ := hlasts.rounds hs' (Nat.zero_le cursor.length) (by rw [hstep])
  have hle := hss.length_le (Nat.zero_le _)
  rw [Nat.zero_add] at hle
  refine ⟨ss, hss, hlength ▸ hle, ?_, ?_, ?_⟩
  · intro k t hk
    have hbegins := hss.begins hk
    rw [Nat.zero_add] at hbegins
    obtain ⟨v, hv, hround⟩ := hbegins.step
    rw [hround]
    exact ⟨v, hv, t.machine.store.rebinds_assign var v, rfl, rfl⟩
  · intro hundisturbed k t hk
    have hid : id.index < a.machine.heap.lists.size := by
      by_contra hid
      -- a list that is not known is empty, so that there are no rounds
      have hempty : vs = [] := Heap.contents_of_size_le (Nat.le_of_not_lt hid)
      have hlt := (List.getElem?_eq_some_iff.mp hk).1
      rw [hlength, hempty, List.length_nil] at hle
      omega
    have hholding : a.step.machine.heap.Holding cursor.bank vs := by
      rw [hstep]
      exact ht.holding hid
    exact (hss.holding hholding hundisturbed hk).read? hlength k
  · intro hresolved
    have hfinishes := hss.finishes hs' (Nat.zero_le _) hresolved
    rwa [Nat.zero_add, hlength] at hfinishes

/-- An element is appended to the list `x`. -/
def lengtheningBody : Block :=
  .of .none [.call .none (some ⟨.none, "APPEND"⟩) [.identifier .none "x", .identifier .none "e"]]

/-- This is done for each element of the list. -/
def lengthening : Program where
  statements := [
    .assignment .none (.identifier .none "x")
      (.list .none [.literal .none (.text "a"), .literal .none (.text "b")]),
    .forEach .none (some ⟨.none, "e"⟩) (.identifier .none "x") lengtheningBody]

/-- The moment at which the loop has its list. -/
def lengtheningLoop : Session :=
  (begun lengthening { plugins := [Builtins.plugin] }).after (List.replicate 17 .step)

set_option maxRecDepth 1000 in
/-- The loop visits the two elements that the list had at its beginning. -/
theorem each_visits_lengthening :
    let K := lengtheningLoop.machine.pending.tail
    let es := List.replicate 36 .step
    lengtheningLoop.Lived ∧ lengtheningLoop.machine.control = .value (.list ⟨0⟩) ∧
    lengtheningLoop.machine.pending = .eachSource .none "e" lengtheningBody :: K ∧
    Lasts K lengtheningLoop.step es ∧
    lengtheningLoop.machine.heap.contents ⟨0⟩ = [.text "a", .text "b"] ∧
    (lengtheningLoop.step.after es).machine.heap.contents ⟨0⟩ =
      [.text "a", .text "b", .text "a", .text "b"] ∧
    ∃ ss, Rounds "e" ⟨0, 2⟩ lengtheningBody K 0 lengtheningLoop.step es ss ∧ ss.length = 2 ∧
      ∀ (k : Nat) (t : Session), ss[k]? = some t → ∃ v, [Value.text "a", .text "b"][k]? = some v ∧
        t.machine.store.Rebinds "e" v t.step.machine.store := by
  intro K es
  have hlived : lengtheningLoop.Lived := (lived_begun rfl).after _
  have hlist : lengtheningLoop.machine.control = .value (.list ⟨0⟩) := rfl
  have hpending : lengtheningLoop.machine.pending =
      .eachSource .none "e" lengtheningBody :: K := rfl
  have hlasts : Lasts K lengtheningLoop.step es := by
    iterate 36 refine .cons (List.suffix_iff_eq_drop.mpr rfl) (not_resolved (by decide)) ?_
    exact .nil (List.suffix_iff_eq_drop.mpr rfl) (not_resolved (by decide))
  obtain ⟨ss, hss, -, hbinds, hvisits, hfinishes⟩ := each_visits hlived hlist hpending hlasts
  have hundisturbed : undisturbed 0 lengtheningLoop.step es = true := by decide +kernel
  refine ⟨hlived, hlist, hpending, hlasts, rfl, rfl, ss, hss, ?_, fun k t hk => ?_⟩
  · -- the loop is over with the next step, and the statements of its body have been completed
    have hcontrol : (lengtheningLoop.step.after es).machine.control = .complete .next := rfl
    cases hfinishes ⟨rfl, rfl⟩ with
    | through all _ => exact all
    | returns control _ => exact absurd (hcontrol.symm.trans control) (by simp)
    | breaks control _ => simp [hcontrol, Control.isBroken] at control
    | stops cancelled _ => exact absurd cancelled (by decide +kernel)
  · obtain ⟨v, hv, hrebinds, -⟩ := hbinds k t hk
    exact ⟨v, (hvisits hundisturbed k t hk).symm.trans hv, hrebinds⟩

/-- The element of the round is noted, and the first element of the list is removed. -/
def shrinkingBody : Block :=
  .of .none [
    .call .none (some ⟨.none, "APPEND"⟩) [.identifier .none "y", .identifier .none "e"],
    .call .none (some ⟨.none, "REMOVE"⟩)
      [.identifier .none "x", .literal .none (.number (.ofNat 1))]]

/-- This is done for each element of the list. -/
def shrinking : Program where
  statements := [
    .assignment .none (.identifier .none "x") (.list .none
      [.literal .none (.text "a"), .literal .none (.text "b"), .literal .none (.text "c")]),
    .assignment .none (.identifier .none "y") (.list .none []),
    .forEach .none (some ⟨.none, "e"⟩) (.identifier .none "x") shrinkingBody]

/-- The session after some steps. -/
def shrinkingAfter (n : Nat) : Session :=
  (begun shrinking { plugins := [Builtins.plugin] }).after (List.replicate n .step)

set_option maxRecDepth 1000 in
/-- The loop has a list of three elements, and its second round binds the third one: that was moved
down when the first one was removed.  The third round binds it again, since it has stayed in the
last cell as well, and the second element is never visited. -/
theorem each_visits_shrinking :
    (shrinkingAfter 26).Lived ∧ (shrinkingAfter 26).machine.control = .value (.list ⟨0⟩) ∧
    (shrinkingAfter 26).machine.heap.contents ⟨0⟩ = [.text "a", .text "b", .text "c"] ∧
    Begins "e" ⟨0, 3⟩ shrinkingBody (shrinkingAfter 26).machine.pending.tail 1
      (shrinkingAfter 61) ∧
    (shrinkingAfter 62).machine.store.resolve? "e" = some (.text "c") ∧
    (shrinkingAfter 134).controller.phase = .completed ∧
    (shrinkingAfter 134).machine.store.resolve? "y" = some (.list ⟨1⟩) ∧
    (shrinkingAfter 134).machine.heap.contents ⟨1⟩ = [.text "a", .text "c", .text "c"] := by
  exact ⟨(lived_begun rfl).after _, rfl, rfl, ⟨rfl, rfl, by decide, rfl, rfl⟩, by decide +kernel,
    by decide +kernel, by decide +kernel, by decide +kernel⟩

end Session

end Pseudocode
