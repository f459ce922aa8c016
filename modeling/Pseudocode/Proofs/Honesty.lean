/-
# Honest sessions

A session is honest if its host is: its functions hand on only such lists as they were given, have
found in others or have made, and between runs it works on lists that exist.

One region of the heap is that of all lists there are, and nothing of an honest session is ever
outside of it.  So every list exists that a variable, another list, a pending task or a host
function of an honest session mentions.

The main results are

* `Session.Honest.within`: an honest session is within every region that has all its lists;
* `Session.Honest.wellFormed`, `Session.Honest.knows`: the lists that it mentions exist.
-/
import Pseudocode.Proofs.Enclosure
import Pseudocode.Proofs.Sequences

namespace Pseudocode

variable {R : Region}

namespace Plugin

/-- The frames hold known values, and the lists are well-formed. -/
structure Stocked (state : Store × Heap) : Prop where
  store : state.1.In (.all state.2)
  wellFormed : state.2.WellFormed

variable {state : Store × Heap}

lemma Stocked.bindCopy (hs : Stocked state) (x : String × Value) :
    Stocked (bindCopy state x) := by
  have hclone := Heap.grown_clone hs.wellFormed x.2
  refine ⟨Store.In.bindGlobal (hs.store.mono fun id hid => ?_) x.1 ?_, hclone.wellFormed⟩
  · exact Nat.lt_of_lt_of_le hid hclone.kept.size_lists_le
  · exact Heap.knows_clone state.2 x.2

lemma Stocked.foldl_bindCopy (hs : Stocked state) (vars : List (String × Value)) :
    Stocked (vars.foldl Plugin.bindCopy state) := by
  induction vars generalizing state with
  | nil => exact hs
  | cons x vars ih => exact ih (hs.bindCopy x)

lemma Stocked.addVars (hs : Stocked state) (plugins : List Plugin) :
    Stocked (addVars plugins state) := by
  induction plugins generalizing state with
  | nil => exact hs
  | cons p plugins ih => exact ih (hs.foldl_bindCopy p.vars)

end Plugin

/-- The values that the operation is given. -/
def Operation.values : Operation → List Value
  | literal items => items
  | assign _ id _ v => [.list id, v]
  | append _ args | insert _ args | remove _ args => args
  | clone v => [v]

namespace Session

variable {s t : Session}

/-- What sessions can come to whose host is honest: its functions are, and it works on lists that
exist. -/
inductive Honest : Session → Prop where
  | new (o : Settings) : Honest (.new o)
  | launch {s t : Session} {program : Program} {l : Launch} (hs : Honest s)
      (hl : ∀ p ∈ l.plugins, p.Honest) (h : s.launch program l = .ok t) : Honest t
  | happen {s : Session} (hs : Honest s) (e : Event) : Honest (s.happen e)
  | hosted {s : Session} (hs : Honest s) {op : Operation}
      (hop : ∀ v ∈ op.values, s.machine.heap.Knows v) : Honest (s.hosted op)

lemma Honest.lived (hs : s.Honest) : s.Lived := by
  induction hs with
  | new o => exact .new o
  | launch _ _ h ih => exact ih.launch h
  | happen _ e ih => exact ih.happen e
  | hosted _ _ ih => exact ih.hosted _

lemma Honest.after (hs : s.Honest) (es : List Event) : (s.after es).Honest :=
  after_induction (P := Honest) (fun _ e hs => hs.happen e) hs es

lemma honest_begun {program : Program} {l : Launch} (hl : ∀ p ∈ l.plugins, p.Honest)
    (h : launch {} program l = .ok t) : (begun program l).Honest := by
  rw [begun_eq h]
  exact .launch (.new {}) hl h

/-- Until there is a result, changes are made to the lists, if any. -/
lemma changes_conclude (s : Session) (fuel : Nat) :
    Heap.Changes s.machine.heap (s.conclude fuel).machine.heap := by
  induction fuel generalizing s with
  | zero => exact .refl
  | succ fuel ih =>
      simp only [conclude]
      split
      · exact .refl
      · exact s.changes_proceed.trans (ih s.proceed)

/-- A session that goes on until there is a result stays within a region. -/
lemma In.conclude (h : s.In R) (fuel : Nat)
    (ha : R.Admits s.machine.heap (s.conclude fuel).machine.heap) :
    Remains R s (s.conclude fuel) := by
  induction fuel generalizing s with
  | zero => exact h.remains rfl
  | succ fuel ih =>
      simp only [Session.conclude] at ha ⊢
      split at ha
      · rename_i hresult
        rw [if_pos hresult]
        exact h.remains rfl
      · rename_i hresult
        rw [if_neg hresult]
        have hfirst := s.changes_proceed.longer
        have hrest := (changes_conclude s.proceed fuel).longer
        have hremains := h.proceed (ha.left hrest)
        have hlater := ih hremains.within (ha.right hfirst)
        exact ⟨hlater.within, hremains.changes.trans hlater.changes⟩

/-- What an operation on known values makes of the lists. -/
lemma In.perform_operation (h : s.In R) (hw : s.machine.heap.WellFormed) {op : Operation}
    (hop : ∀ v ∈ op.values, v.In R) (hR : R.Covers (op.perform s).machine.heap) :
    (op.perform s).machine.heap.Closed R := by
  have hbuiltin : ∀ {f : Native} {args : List Value} (site : Span), f.Honest →
      (∀ v ∈ args, v.In R) →
      R.Covers ((s.goto (.host site (f args))).conclude 4).machine.heap →
      ((s.goto (.host site (f args))).conclude 4).machine.heap.Closed R := by
    intro f args site hf hargs hR
    have hcalled : (s.goto (.host site (f args))).In R := h.goto (hf R args hargs)
    exact (hcalled.conclude 4 (hR.admits _)).within.machine.heap
  cases op with
  | literal items =>
      have hitems : ∀ v ∈ items.reverse, v.In R := fun v hv => hop v (List.mem_reverse.mp hv)
      exact (h.machine.makeList hitems (hR.admits _)).within.heap
  | assign span id p v =>
      obtain ⟨hid, hv⟩ := List.forall_mem_cons.mp hop
      exact (h.machine.writeElement span (hid id rfl) p (hv v (by simp)) (hR.admits _)).within.heap
  | append site args => exact hbuiltin site Builtins.honest_append hop hR
  | insert site args => exact hbuiltin site Builtins.honest_insert hop hR
  | remove site args => exact hbuiltin site Builtins.honest_remove hop hR
  | clone v => exact (Heap.grown_clone hw v).wellFormed.closed hR

lemma changes_operation (s : Session) (op : Operation) :
    Heap.Changes s.machine.heap (op.perform s).machine.heap := by
  have hbuiltin : ∀ (f : Action Value) (site : Span), Heap.Changes s.machine.heap
      ((s.goto (.host site f)).conclude 4).machine.heap :=
    fun f site => changes_conclude (s.goto (.host site f)) 4
  cases op with
  | literal items => exact s.machine.changes_makeList _
  | assign span id p v => exact s.machine.changes_writeElement span id p v
  | append site args => exact hbuiltin _ site
  | insert site args => exact hbuiltin _ site
  | remove site args => exact hbuiltin _ site
  | clone v => exact s.machine.heap.changes_clone v

/-- Whatever has become of an honest session, all that it can get at is within every region that has
all its lists and banks. -/
theorem Honest.within (hs : s.Honest) : ∀ {R : Region}, R.Covers s.machine.heap → s.In R := by
  -- All regions are needed in the induction: a host function that keeps within a region need not
  -- keep within a larger one, since it has more answers to go on from there.
  induction hs with
  | new o =>
      intro R _
      have hmachine : Machine.In R { heap := { slack := o.slack } } :=
        { heap := ⟨fun id hid => by simp at hid, fun b _ v hv => by simp [Heap.cells] at hv⟩
          store := Store.in_empty R
          control := trivial
          pending := by simp
          functions := by simp [Registry.All]
          failed := fun x hx => by cases hx }
      have herror : (Session.new o).controller.error = none := by
        simp only [Session.new]
        split
        · rfl
        · rfl
      exact ⟨hmachine, fun e he => by rw [herror] at he; cases he⟩
  | @launch s t program l _ hl h ih =>
      intro R hR
      have hw : s.machine.heap.WellFormed :=
        (ih (Region.covers_all _)).machine.heap.wellFormed
      have hfunctions := all_functions_launch (P := Function.Honest) hl (fun _ _ _ => trivial) h
      obtain ⟨machine, hm, rfl⟩ := launch_eq_ok.mp h
      obtain ⟨functions, -, rfl⟩ := freshMachine_eq_ok hm
      have hstocked : Plugin.Stocked (Plugin.addVars l.plugins (.empty, s.machine.heap)) :=
        Plugin.Stocked.addVars ⟨Store.in_empty _, hw⟩ l.plugins
      refine ⟨?_, fun e he => by cases he⟩
      exact
        { heap := hstocked.wellFormed.closed hR
          store := hstocked.store.mono fun id hid => hR.lists id hid
          control := trivial
          pending := List.forall_mem_cons.mpr ⟨trivial, by simp⟩
          functions := hfunctions
          failed := fun x hx => by cases hx }
  | @happen s _ e ih =>
      intro R hR
      have hbefore := ih (hR.of_longer (s.changes_happen e).longer)
      exact (hbefore.happen e (hR.admits _)).within
  | @hosted s _ op hop ih =>
      intro R hR
      have hbefore := hR.of_longer (s.changes_operation op).longer
      have hw : s.machine.heap.WellFormed :=
        (ih (Region.covers_all _)).machine.heap.wellFormed
      have hclosed := (ih hbefore).perform_operation hw
        (fun v hv id hid => hbefore.lists id (hop v hv id hid)) hR
      exact (ih hbefore).withMachine { (ih hbefore).machine with heap := hclosed }

/-- The lists of an honest session are well-formed. -/
theorem Honest.wellFormed (hs : s.Honest) : s.machine.heap.WellFormed :=
  (hs.within (Region.covers_all _)).machine.heap.wellFormed

/-- The variables of an honest session hold lists that exist. -/
theorem Honest.knows (hs : s.Honest) : s.machine.heap.KnowsFrames s.machine.store.frames := by
  have hstore := (hs.within (Region.covers_all _)).machine.store
  intro f hf
  rcases List.mem_cons.mp hf with rfl | hf
  · exact hstore.global
  · exact hstore.calls f (List.mem_reverse.mp hf)

lemma Honest.knows_of_resolve? (hs : s.Honest) (name : String) (id : ListId)
    (hname : s.machine.store.resolve? name = some (.list id)) :
    id.index < s.machine.heap.lists.size :=
  (hs.within (Region.covers_all _)).machine.store.resolve? hname id rfl

end Session

end Pseudocode
