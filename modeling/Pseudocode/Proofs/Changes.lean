/-
# What a step does to the lists

Whatever a run does to lists it does with five operations of the heap: it makes a list, or writes,
appends, inserts or removes an element.  This file says so of every step, of the commands, and of
the beginning of a run, where the variables of the host are copied.  What the five operations keep
is therefore true of the lists at every moment.

The main results are

* `Session.changes_step`: a step makes changes of these kinds, if any;
* `Session.changes_happen`, `Session.changes_launch`: so do the commands, and the beginning of a
  run.
-/
import Mathlib.Logic.Relation
import Pseudocode.Proofs.Moves
import Pseudocode.Value.Clone

namespace Pseudocode

namespace Heap

/-- A change to the lists of a heap. -/
inductive Change (h : Heap) : Heap → Prop where
  | alloc (vs : Array Value) : Change h (h.alloc vs).2
  | set (id : ListId) (i : Nat) (v : Value) : Change h (h.set id i v)
  | push (id : ListId) (v : Value) : Change h (h.push id v)
  | insert (id : ListId) (i : Nat) (v : Value) : Change h (h.insert id i v)
  | erase (id : ListId) (i : Nat) : Change h (h.erase id i)

/-- Changes one after another. -/
abbrev Changes : Heap → Heap → Prop := Relation.ReflTransGen Change

variable {h h' h'' : Heap}

lemma Change.changes (hc : Change h h') : Changes h h' := .single hc

/-- What a change keeps is kept by changes one after another. -/
lemma Changes.keep {P : Heap → Prop} (hP : ∀ {h h' : Heap}, Change h h' → P h → P h')
    (hc : Changes h h') (hp : P h) : P h' := by
  induction hc with
  | refl => exact hp
  | tail _ hlast ih => exact hP hlast ih

/-- There are at least as many lists and banks as before. -/
structure Longer (h h' : Heap) : Prop where
  lists : h.lists.size ≤ h'.lists.size
  banks : h.banks.size ≤ h'.banks.size

lemma Longer.trans (hl : Longer h h') (hl' : Longer h' h'') : Longer h h'' :=
  ⟨Nat.le_trans hl.lists hl'.lists, Nat.le_trans hl.banks hl'.banks⟩

lemma longer_push (h : Heap) (id : ListId) (v : Value) : Longer h (h.push id v) := by
  unfold push
  dsimp only
  split
  · exact ⟨by simp, by simp⟩
  · exact ⟨by simp, by simp⟩

lemma Change.longer (hc : Change h h') : Longer h h' := by
  cases hc with
  | alloc vs => exact ⟨by simp [Heap.alloc], by simp [Heap.alloc]⟩
  | set id i v => exact ⟨by simp [Heap.set], by simp [Heap.set]⟩
  | push id v => exact longer_push h id v
  | insert id i v =>
      exact (longer_push h id .nothing).trans ⟨by simp [Heap.insert], by simp [Heap.insert]⟩
  | erase id i => exact ⟨by simp [Heap.erase], by simp [Heap.erase]⟩

lemma Changes.longer (hc : Changes h h') : Longer h h' :=
  hc.keep (P := Longer h) (fun hchange hl => hl.trans hchange.longer)
    ⟨Nat.le_refl _, Nat.le_refl _⟩

/-- How much room lists get when they outgrow what they have stays settled. -/
lemma Change.slack (hc : Change h h') : h'.slack = h.slack := by
  have hpush : ∀ (id : ListId) (v : Value), (h.push id v).slack = h.slack := by
    intro id v
    simp only [Heap.push]
    split
    · rfl
    · rfl
  cases hc with
  | push id v => exact hpush id v
  | insert id i v => exact hpush id .nothing
  | _ => rfl

lemma Changes.slack (hc : Changes h h') : h'.slack = h.slack :=
  hc.keep (P := fun h' => h'.slack = h.slack) (fun hchange hs => hchange.slack.trans hs) rfl

/-- A copy is made of new lists. -/
lemma changes_clone (h : Heap) (v : Value) : Changes h (h.clone v).2 := by
  have hfold : ∀ (f : ListId → Array Value) (ids : List ListId) (acc : Heap),
      Changes acc (ids.foldl (fun acc id => (acc.alloc (f id)).2) acc) := by
    intro f ids
    induction ids with
    | nil => exact fun _ => .refl
    | cons id ids ih => exact fun acc => .head (.alloc (f id)) (ih _)
  exact hfold _ _ h

end Heap

namespace Plugin

open Heap (Changes)

lemma changes_foldl_bindCopy (vars : List (String × Value)) (state : Store × Heap) :
    Changes state.2 (vars.foldl bindCopy state).2 := by
  induction vars generalizing state with
  | nil => exact .refl
  | cons var vars ih => exact (state.2.changes_clone var.2).trans (ih (bindCopy state var))

lemma changes_addVars (plugins : List Plugin) (state : Store × Heap) :
    Changes state.2 (addVars plugins state).2 := by
  induction plugins generalizing state with
  | nil => exact .refl
  | cons p plugins ih =>
      exact (changes_foldl_bindCopy p.vars state).trans (ih (p.vars.foldl bindCopy state))

end Plugin

namespace Machine

open Heap (Changes)

variable (m : Machine)

lemma changes_readVariable (span : Span) (name : String) :
    Changes m.heap (m.readVariable span name).heap := by
  unfold readVariable
  split
  · exact .refl
  · exact .refl

lemma changes_makeList (done : List Value) : Changes m.heap (m.makeList done).heap :=
  (Heap.Change.alloc done.reverse.toArray).changes

lemma changes_eval (n : Node) : Changes m.heap (m.eval n).heap := by
  unfold eval
  split
  · exact .refl
  · split
    · exact .refl
    · exact .refl
  · exact .refl
  · exact .refl
  · exact .refl
  · exact .refl
  · exact .refl
  · exact .refl
  · exact m.changes_readVariable _ _
  · exact .refl
  · exact .refl
  · exact m.changes_makeList _
  · exact .refl
  · exact .refl
  · exact .refl
  · exact .refl
  · exact .refl

lemma changes_readElement (span : Span) (name : String) (index : Value) :
    Changes m.heap (m.readElement span name index).heap := by
  unfold readElement
  split
  · exact .refl
  · split
    · exact .refl
    · split
      · exact .refl
      · exact .refl
    · exact .refl

lemma changes_writeElement (span : Span) (id : ListId) (p : Int) (v : Value) :
    Changes m.heap (m.writeElement span id p v).heap := by
  unfold writeElement
  dsimp only
  split
  · exact (Heap.Change.set _ _ _).changes
  · split
    · exact (Heap.Change.push _ _).changes
    · exact .refl

lemma changes_listForWriting (name : String) :
    Changes m.heap (m.listForWriting name).2.heap := by
  unfold listForWriting
  split
  · exact .refl
  · exact (Heap.Change.alloc _).changes

lemma changes_commit (v : Value) (target : Target) :
    Changes m.heap (m.commit v target).heap := by
  cases target with
  | «variable» name => exact .refl
  | element span name p =>
      -- a list may be made for the name, and stays even if nothing can be written to it
      have hwriting := m.changes_listForWriting name
      simp only [commit]
      split
      · rename_i id m' heq
        rw [heq] at hwriting
        exact hwriting.trans (m'.changes_writeElement span id p v)
      · rename_i heq
        rw [heq] at hwriting
        exact hwriting

/-- Assignments, statements, blocks, conditionals and calls begin without a change. -/
lemma heap_assign (target value : Node) : (m.assign target value).heap = m.heap := by
  unfold assign
  split
  · rfl
  · rfl
  · rfl
  · rfl

lemma heap_exec (n : Node) : (m.exec n).heap = m.heap := by
  cases n with
  | assignment span target value => exact m.heap_assign target value
  | forEach span var source body =>
      cases var with
      | none => rfl
      | some var => rfl
  | «return» span value =>
      cases value with
      | missing => rfl
      | _ => rfl
  | _ => rfl

lemma heap_block (b : Block) : (m.block b).heap = m.heap := by
  cases b with
  | missing => rfl
  | of _ _ => rfl

lemma heap_choose (branches : List Branch) : (m.choose branches).heap = m.heap := by
  unfold choose
  split
  · rfl
  · rfl
  · rfl

lemma heap_call (name : String) (args : List Value) (site : Span) :
    (m.call name args site).heap = m.heap := by
  unfold call
  split
  · rfl
  · split
    · rfl
    · split
      · unfold invoke
        split
        · rfl
        · rfl
      · rfl

lemma changes_resume (v : Value) (p : Pending) : Changes m.heap (m.resume v p).heap := by
  cases p with
  | element span name => exact m.changes_readElement span name v
  | assign target => exact m.changes_commit v target
  | items done rest =>
      cases rest with
      | nil => exact m.changes_makeList _
      | cons item rest => exact .refl
  | args site name done rest =>
      cases rest with
      | nil => exact .refl
      | cons arg rest => exact .refl
  | binaryApply _ _ _ | relationApply _ _ _ | targetIndex _ _ _ | timesCount _ _ | untilTest _ _
  | arm _ _ | eachSource _ _ _ =>
      simp only [resume]
      split
      · exact .refl
      · exact .refl
  | _ => exact .refl

lemma heap_iterate (cancelled : Bool) (p : Pending) (c : Control) :
    (m.iterate cancelled p c).heap = m.heap := by
  unfold iterate
  split
  · rfl
  · rfl

lemma heap_proceed (cancelled : Bool) (c : Completion) (p : Pending) :
    (m.proceed cancelled c p).heap = m.heap := by
  unfold proceed
  split
  · rfl
  · rfl
  · split
    · rfl
    · split
      · rfl
      · rfl
      · split
        · exact m.heap_iterate _ _ _
        · rfl
      · exact m.heap_iterate _ _ _
      · split
        · rfl
        · split
          · rfl
          · rfl
      · rfl

lemma heap_unwind (e : Failure) (p : Pending) : (m.unwind e p).heap = m.heap := by
  unfold unwind
  split
  · rfl
  · split
    · rfl
    · rfl
  · rfl

lemma heap_collapse (text : String) (p : Pending) : (m.collapse text p).heap = m.heap := by
  unfold collapse
  split
  · rfl
  · rfl

end Machine

namespace Session

open Heap (Changes)

variable (s : Session)

lemma heap_reach (n : Node) : (s.reach n).machine.heap = s.machine.heap := by
  have h := s.arrival n
  generalize s.reach n = t at h ⊢
  cases h with
  | _ => rfl

lemma heap_pass (n : Node) (p : Standing) : (s.pass n p).machine.heap = s.machine.heap := by
  cases p with
  | admitted =>
      have h := s.heeding n
      show (s.heed n).machine.heap = s.machine.heap
      generalize s.heed n = t at h ⊢
      cases h with
      | _ => rfl
  | throttled | delayed => rfl
  | paused =>
      have h := s.waking n
      show (s.wake n).machine.heap = s.machine.heap
      generalize s.wake n = t at h ⊢
      cases h with
      | _ => rfl

lemma changes_perform (site : Span) (q : Request) (next : q.Answer → Action Value) :
    Changes s.machine.heap (s.perform site q next).machine.heap := by
  cases q with
  | make items => exact (Heap.Change.alloc items.toArray).changes
  | push id v => exact (Heap.Change.push id v).changes
  | insert id i v => exact (Heap.Change.insert id i v).changes
  | erase id i => exact (Heap.Change.erase id i).changes
  | resume stepping =>
      simp only [perform]
      split
      · exact .refl
      · exact .refl
  | _ => exact .refl

lemma changes_act (site : Span) (a : Action Value) :
    Changes s.machine.heap (s.act site a).machine.heap := by
  cases a with
  | ask q next => exact s.changes_perform site q next
  | _ => exact .refl

lemma heap_finishCompleted (c : Completion) :
    (s.finishCompleted c).machine.heap = s.machine.heap := by
  cases c with
  | returned v => rfl
  | next => rfl

lemma heap_finishFailed (e : Failure) : (s.finishFailed e).machine.heap = s.machine.heap := by
  unfold finishFailed
  split
  · rfl
  · rfl

/-- A task, or the end of the run, makes changes if any. -/
lemma changes_withTask {next : Machine → Pending → Machine} {last : Session → Session}
    (hnext : ∀ m p, Changes m.heap (next m p).heap)
    (hlast : (last s).machine.heap = s.machine.heap) :
    Changes s.machine.heap (s.withTask next last).machine.heap := by
  unfold withTask
  split
  · rw [hlast]
  · rename_i p rest hp
    exact hnext { s.machine with pending := rest } p

/-- A run that goes on makes changes to the lists, if any, and does nothing else to the heap. -/
theorem changes_proceed : Changes s.machine.heap s.proceed.machine.heap := by
  unfold proceed
  split
  · exact .refl
  · exact .refl
  · exact .refl
  · rw [s.heap_reach]
  · rw [s.heap_pass]
  · exact s.changes_act _ _
  · exact s.machine.changes_eval _
  · rw [s.machine.heap_exec]
  · rw [s.machine.heap_block]
  · rw [s.machine.heap_choose]
  · rw [s.machine.heap_call]
  · exact s.changes_withTask (fun m p => m.changes_resume _ p) (s.heap_finishCompleted _)
  · exact s.changes_withTask (fun m p => by rw [m.heap_proceed]) (s.heap_finishCompleted _)
  · exact s.changes_withTask (fun m p => by rw [m.heap_unwind]) (s.heap_finishFailed _)
  · exact s.changes_withTask (fun m p => by rw [m.heap_collapse]) rfl
  · exact .refl

/-- So does a step; a report does nothing to the lists. -/
theorem changes_step : Changes s.machine.heap s.step.machine.heap :=
  step_cases (P := fun t => Changes s.machine.heap t.machine.heap) (fun _ _ => .refl)
    (fun _ _ => .refl) fun _ => s.changes_proceed

/-- Commands do nothing to the lists. -/
theorem changes_happen (e : Event) : Changes s.machine.heap (s.happen e).machine.heap := by
  by_cases he : e = .step
  · rw [he]
    exact s.changes_step
  · rcases happen_command s he with h | ⟨site, next, -, h⟩
    · rw [h]
    · rw [h]
      exact .refl

lemma changes_after (es : List Event) :
    Changes s.machine.heap (s.after es).machine.heap := by
  induction es generalizing s with
  | nil => exact .refl
  | cons e es ih => exact (s.changes_happen e).trans (ih (s.happen e))

/-- At the beginning of a run copies are made. -/
theorem changes_launch {t : Session} {program : Program} {l : Launch}
    (h : s.launch program l = .ok t) : Changes s.machine.heap t.machine.heap := by
  obtain ⟨machine, hm, rfl⟩ := launch_eq_ok.mp h
  obtain ⟨functions, -, rfl⟩ := freshMachine_eq_ok hm
  exact Plugin.changes_addVars l.plugins (.empty, s.machine.heap)

end Session

end Pseudocode
